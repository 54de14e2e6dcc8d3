import Colloquy.Dialog.Component
import Colloquy.Dialog.Prompt
import Colloquy.Dialog.Waterfall

/-!
# The programs of library dialogs

A quiet program starts and ends nothing. A finishing program is quiet up to its end,
where it waits, fails, or makes one operation of its own stack and returns what came of
it. The hooks of prompts are such programs, and so are those of waterfalls whose steps
are. Library dialogs are prompts, such waterfalls, and components over library dialogs.
-/
namespace Colloquy

/-- Not one of the faults of a stack that does not fit the dialogs it runs. -/
def Fault.Plain : Fault → Prop
  | .unregistered _ _ | .detached => False
  | _ => True

/-- If it failed, then plainly. -/
def PlainOutcome (r : Except Fault α) : Prop := ∀ e, r = .error e → e.Plain

namespace PlainOutcome

theorem ok (x : α) : PlainOutcome (.ok x) := by
  rintro _ ⟨⟩

theorem error {e : Fault} (he : e.Plain) : PlainOutcome (.error e : Except Fault α) := by
  rintro _ ⟨⟩
  exact he

theorem bind {x : Except Fault α} {f : α → Except Fault β} (hx : PlainOutcome x)
    (hf : ∀ a, PlainOutcome (f a)) : PlainOutcome (x >>= f) := by
  cases x with
  | ok a => exact hf a
  | error e => exact error (hx e rfl)

theorem map {x : Except Fault α} (hx : PlainOutcome x) (f : α → β) : PlainOutcome (x.map f) := by
  cases x with
  | ok a => exact ok (f a)
  | error e => exact error (hx e rfl)

theorem orMalformed (x : Option α) : PlainOutcome (Fault.orMalformed x) := by
  cases x with
  | some value => exact ok value
  | none => exact error trivial

end PlainOutcome

/-! ## Edits fail plainly -/

namespace Path

theorem parse_plain (text : String) : PlainOutcome (parse text) := by
  simp only [parse]
  split
  · exact .error trivial
  · exact .ok _

theorem write_plain (p : Path) (value : Json) (m : Object) : PlainOutcome (p.write value m) := by
  unfold write
  split
  · exact .ok _
  · exact .error trivial

theorem remove_plain (p : Path) (m : Object) : PlainOutcome (p.remove m) := by
  unfold remove
  split
  · exact .error trivial
  · exact .ok _

end Path

namespace Turn

theorem get_plain (t : Turn) (level : Nat) (path : String) : PlainOutcome (t.get level path) :=
  (Path.parse_plain path).bind fun _ => .ok _

theorem openMemory_plain (t : Turn) (level : Nat) : PlainOutcome (t.openMemory level) := by
  unfold openMemory
  split
  · exact .error trivial
  · split <;> exact .ok _

theorem change_plain (t : Turn) (level : Nat) (scope : Scope)
    {f : Object → Except Fault (α × Object)} (hf : ∀ m, PlainOutcome (f m)) :
    PlainOutcome (t.change level scope f).1 := by
  have hsettle (m : Object) (unchanged : Turn) (put : Object → Turn) :
      PlainOutcome (change.settle (f m) unchanged put).1 := by
    have hfm := hf m
    cases h : f m with
    | ok x => exact .ok x.1
    | error e => exact .error (hfm e h)
  cases scope with
  | settings => exact .error trivial
  | user | conversation | turn => exact hsettle _ _ _
  | dialog =>
    simp only [change]
    split
    · next e hopen => exact .error (t.openMemory_plain level e hopen)
    · exact hsettle _ _ _

theorem set_plain (t : Turn) (level : Nat) (path : String) (value : Json) :
    PlainOutcome (t.set level path value).1 := by
  unfold set
  split
  · next e hparse => exact .error (Path.parse_plain path e hparse)
  · next p _ => exact t.change_plain level _ fun m => (p.write_plain value m).map _

theorem delete_plain (t : Turn) (level : Nat) (path : String) :
    PlainOutcome (t.delete level path).1 := by
  unfold delete
  split
  · next e hparse => exact .error (Path.parse_plain path e hparse)
  · next p _ =>
    split
    · exact .ok _
    · exact t.change_plain level _ p.remove_plain

end Turn

theorem Edit.apply_plain (e : Edit α) (level : Nat) (t : Turn) :
    PlainOutcome (e.apply level t).1 := by
  cases e with
  | set path value => exact t.set_plain level path value
  | delete path => exact t.delete_plain level path
  | openMemory =>
    simp only [Edit.apply]
    split
    · exact .ok _
    · next e hopen => exact .error (t.openMemory_plain level e hopen)
  | send activity => exact .ok _
  | takeReplies => exact .ok _
  | setGlobalTags tags => exact .ok _

/-! ## Quiet programs -/

namespace Program

/-- The program looks, edits and notes, here or in places near by, and runs no hook. -/
inductive Quiet : {α : Type} → Program α → Prop
  | done {α : Type} {outcome : Except Fault α} (h : PlainOutcome outcome) : Quiet (done outcome)
  | look {α : Type} {next : Sight → Program α} (h : ∀ s, Quiet (next s)) : Quiet (look next)
  | edit {α β : Type} {e : Edit β} {next : Except Fault β → Program α}
      (h : ∀ r, PlainOutcome r → Quiet (next r)) : Quiet (edit e next)
  | note {α : Type} {content : Json} {next : Program α} (h : Quiet next) :
      Quiet (note content next)
  | within {α β : Type} {place : Place} {body : Program β}
      {next : Option (Except Fault β) → Program α} (hbody : Quiet body)
      (h : ∀ r, (∀ x, r = some x → PlainOutcome x) → Quiet (next r)) :
      Quiet (within place body next)

/-- The operations of a program's own stack that lead on. -/
inductive Leads : Call TurnResult → Prop
  | begin (id : String) (options : Option Json) : Leads (.begin id options)
  | replace (id : String) (options : Option Json) : Leads (.replace id options)
  | finish (result : Option Json) : Leads (.finish result)
  | next (result : Option Json) : Leads (.next result)

/-- The program returns a given outcome, or fails plainly before. -/
inductive Returns (r : Except Fault α) : Program α → Prop
  | done : Returns r (done r)
  | fail {e : Fault} (he : e.Plain) : Returns r (done (.error e))
  | look {next : Sight → Program α} (h : ∀ s, Returns r (next s)) : Returns r (look next)
  | edit {β : Type} {e : Edit β} {next : Except Fault β → Program α}
      (h : ∀ x, PlainOutcome x → Returns r (next x)) : Returns r (edit e next)
  | note {content : Json} {next : Program α} (h : Returns r next) : Returns r (note content next)

/-- The program is quiet up to its end, where it waits, fails plainly or makes one
operation that leads on and returns what came of it. -/
inductive Finishing : Program TurnResult → Prop
  | wait : Finishing (done (.ok .waiting))
  | fail {e : Fault} (he : e.Plain) : Finishing (done (.error e))
  | look {next : Sight → Program TurnResult} (h : ∀ s, Finishing (next s)) :
      Finishing (look next)
  | edit {β : Type} {e : Edit β} {next : Except Fault β → Program TurnResult}
      (h : ∀ r, PlainOutcome r → Finishing (next r)) : Finishing (edit e next)
  | note {content : Json} {next : Program TurnResult} (h : Finishing next) :
      Finishing (note content next)
  | within {β : Type} {place : Place} {body : Program β}
      {next : Option (Except Fault β) → Program TurnResult} (hbody : Quiet body)
      (h : ∀ r, (∀ x, r = some x → PlainOutcome x) → Finishing (next r)) :
      Finishing (within place body next)
  | operate {c : Call TurnResult} {next : Except Fault TurnResult → Program TurnResult}
      (hc : Leads c) (h : ∀ r, Returns r (next r)) : Finishing (call c next)

theorem Quiet.bind {p : Program α} {f : α → Program β} (hp : p.Quiet) (hf : ∀ x, (f x).Quiet) :
    (p >>= f).Quiet := by
  induction hp with
  | @done _ outcome h =>
    cases outcome with
    | ok x => exact hf x
    | error e => exact .done (.error (h e rfl))
  | look _ ih => exact .look fun s => ih s hf
  | edit _ ih => exact .edit fun r hr => ih r hr hf
  | note _ ih => exact .note (ih hf)
  | within hbody _ _ ih => exact .within hbody fun r hr => ih r hr hf

theorem Quiet.finishing {p : Program α} {f : α → Program TurnResult} (hp : p.Quiet)
    (hf : ∀ x, (f x).Finishing) : (p >>= f).Finishing := by
  induction hp with
  | @done _ outcome h =>
    cases outcome with
    | ok x => exact hf x
    | error e => exact .fail (h e rfl)
  | look _ ih => exact .look fun s => ih s hf
  | edit _ ih => exact .edit fun r hr => ih r hr hf
  | note _ ih => exact .note (ih hf)
  | within hbody _ _ ih => exact .within hbody fun r hr => ih r hr hf

theorem Returns.limitNext {r : Except Fault α} {p : Program α} (h : Returns r p) (again : Fault)
    (used : Bool) : Returns r (p.limitNext again used) := by
  induction h with
  | done => exact .done
  | fail he => exact .fail he
  | look _ ih => exact .look ih
  | edit _ ih => exact .edit ih
  | note _ ih => exact .note ih

/-- One operation keeps within any limit. -/
theorem Finishing.limitNext {p : Program TurnResult} (h : p.Finishing) (again : Fault) :
    (p.limitNext again false).Finishing := by
  induction h with
  | wait => exact .wait
  | fail he => exact .fail he
  | look _ ih => exact .look ih
  | edit _ ih => exact .edit ih
  | note _ ih => exact .note ih
  | within hbody _ ih => exact .within hbody ih
  | operate hc h =>
    cases hc with
    | begin id options => exact .operate (.begin id options) fun r => (h r).limitNext again false
    | replace id options =>
      exact .operate (.replace id options) fun r => (h r).limitNext again false
    | finish result => exact .operate (.finish result) fun r => (h r).limitNext again false
    | next result => exact .operate (.next result) fun r => (h r).limitNext again true

/-! ## Quiet parts -/

theorem quiet_ofExcept {outcome : Except Fault α} (h : PlainOutcome outcome) :
    (ofExcept outcome).Quiet := .done h

theorem quiet_pure (x : α) : (pure x : Program α).Quiet := .done (.ok x)

theorem quiet_change (e : Edit α) : (change e).Quiet := .edit fun _ hr => .done hr

theorem quiet_get (path : String) : (get path).Quiet :=
  .look fun s => .done (s.turn.get_plain s.level path)

theorem quiet_getAs (decode : Json → Option α) (path : String) : (getAs decode path).Quiet := by
  refine (quiet_get path).bind fun found => ?_
  cases found with
  | none => exact quiet_pure none
  | some v => exact (quiet_ofExcept (.orMalformed _)).bind fun x => quiet_pure (some x)

theorem quiet_set (path : String) (value : Json) : (set path value).Quiet := quiet_change _

theorem quiet_activity : activity.Quiet := .look fun s => quiet_pure s.turn.activity

theorem quiet_sight : sight.Quiet := .look fun s => quiet_pure s

theorem quiet_sendText (text : String) : (sendText text).Quiet :=
  quiet_activity.bind fun _ => quiet_change _

theorem quiet_record (content : Json) : (record content).Quiet := .note (quiet_pure ())

theorem finishing_finish (result : Option Json) : (finish result).Finishing :=
  .operate (.finish result) fun _ => .done

theorem finishing_prompt (id : String) (options : PromptOptions) :
    (prompt id options).Finishing := by
  unfold prompt
  split
  · exact .fail trivial
  · exact .operate (.begin id _) fun _ => .done

end Program

/-! ## Prompts -/

namespace Prompt

theorem quiet_storedOptions : storedOptions.Quiet := by
  refine (Program.quiet_getAs _ _).bind fun options => ?_
  cases options with
  | some options => exact Program.quiet_pure options
  | none => exact .done (.error trivial)

theorem quiet_reprompt : reprompt.Quiet :=
  quiet_storedOptions.bind fun options => Program.quiet_sendText options.prompt

theorem finishing_begin (p : Prompt) (options : Option Json) : (p.begin options).Finishing := by
  cases options with
  | none => exact .fail trivial
  | some v =>
    refine (Program.quiet_ofExcept (.orMalformed _)).finishing fun options => ?_
    refine (Program.quiet_set _ _).finishing fun _ => ?_
    exact (Program.quiet_sendText options.prompt).finishing fun _ => .wait

theorem quiet_judged (p : Prompt) (trial : Trial) : (p.judged trial).Quiet := by
  have hnotes (notes : List Json) : (notes.forM Program.record).Quiet := by
    induction notes with
    | nil => exact Program.quiet_pure ()
    | cons content rest ih => exact (Program.quiet_record content).bind fun _ => ih
  exact (hnotes _).bind fun _ => Program.quiet_pure _

theorem quiet_accept? (p : Prompt) (hp : ∀ a, PlainOutcome (p.recognize a))
    (options : PromptOptions) : (p.accept? options).Quiet := by
  refine (Program.quiet_getAs _ _).bind fun count => ?_
  refine (Program.quiet_set _ _).bind fun _ => Program.quiet_activity.bind fun a => ?_
  refine (Program.quiet_ofExcept (hp a)).bind fun found => ?_
  cases found with
  | none => exact Program.quiet_pure none
  | some value =>
    refine (p.quiet_judged _).bind fun accepted => ?_
    cases accepted with
    | true => exact Program.quiet_pure (some value)
    | false => exact Program.quiet_pure none

theorem finishing_advance (p : Prompt) (hp : ∀ a, PlainOutcome (p.recognize a)) :
    p.advance.Finishing := by
  refine Program.quiet_activity.finishing fun a => ?_
  split
  · exact .wait
  · refine quiet_storedOptions.finishing fun options => ?_
    refine (p.quiet_accept? hp options).finishing fun found => ?_
    cases found with
    | some value => exact Program.finishing_finish _
    | none =>
      refine Program.quiet_sight.finishing fun s => ?_
      split
      · exact (Program.quiet_sendText _).finishing fun _ => .wait
      · exact .wait

end Prompt

/-! ## Waterfalls -/

namespace Waterfall
variable (w : Waterfall) (hsteps : ∀ step ∈ w.steps, ∀ input, (step input).Finishing)
include hsteps

theorem finishing_runStep (index : Nat) (reason : Reason) (result : Option Json) :
    (w.runStep index reason result).Finishing := by
  unfold runStep
  split
  · exact Program.finishing_finish _
  · next step hstep =>
    refine (Program.quiet_set _ _).finishing fun _ => ?_
    refine (Program.quiet_get _).finishing fun options => ?_
    exact (hsteps step (List.mem_of_getElem? hstep) _).limitNext _

theorem finishing_resume (reason : Reason) (result : Option Json) :
    (w.resume reason result).Finishing :=
  (Program.quiet_getAs _ _).finishing fun _ => w.finishing_runStep hsteps _ _ _

theorem finishing_begin : w.begin.Finishing :=
  (Program.quiet_set _ _).finishing fun _ => w.finishing_runStep hsteps _ _ _

theorem finishing_advance : w.advance.Finishing := by
  refine Program.quiet_activity.finishing fun a => ?_
  split
  · exact w.finishing_resume hsteps _ _
  · exact .wait

end Waterfall

/-! ## Library dialogs -/

/-- A prompt, a waterfall of finishing steps without bindings, or a component over
library dialogs. A recognizer may fail, but not as a stack does. -/
inductive Dialog.Library : Dialog → Prop
  | prompt (p : Prompt) (hp : ∀ a, PlainOutcome (p.recognize a)) : Library p.dialog
  | waterfall (w : Waterfall) (hinputs : w.inputs = []) (houtput : w.output = none)
      (hsteps : ∀ step ∈ w.steps, ∀ input, (step input).Finishing) : Library w.dialog
  | component (c : Component) (hc : ∀ id d, c.dialogs.find? id = some d → Library d) :
      Library c.dialog

def DialogSet.Library (set : DialogSet) : Prop := ∀ id d, set.find? id = some d → d.Library

/-- A dialog that hosts none and whose hooks are finishing or quiet. -/
structure Dialog.Leaf (d : Dialog) : Prop where
  hosts : d.children = none
  begins (options : Option Json) : (d.onBegin options).Finishing
  advances : d.onContinue.Finishing
  resumes (reason : Reason) (result : Option Json) : (d.onResume reason result).Finishing
  reprompts : d.onReprompt.Quiet
  closes (reason : Reason) : (d.onClose reason).Quiet

namespace Dialog.Library
variable {d : Dialog} (h : d.Library)
include h

theorem leaf_or_component : d.Leaf ∨ ∃ c : Component, d = c.dialog ∧ c.dialogs.Library := by
  cases h with
  | prompt p hp =>
    refine .inl ⟨rfl, p.finishing_begin, p.finishing_advance hp, fun _ _ => ?_,
      Prompt.quiet_reprompt, fun _ => Program.quiet_pure ()⟩
    exact Prompt.quiet_reprompt.finishing fun _ => .wait
  | waterfall w _ _ hsteps =>
    exact .inl ⟨rfl, fun _ => w.finishing_begin hsteps, w.finishing_advance hsteps,
      w.finishing_resume hsteps, Program.quiet_pure (), fun _ => Program.quiet_pure ()⟩
  | component c hc => exact .inr ⟨c, rfl, hc⟩

theorem inputs_eq : d.inputs = [] := by
  cases h with
  | prompt p _ => rfl
  | waterfall w hinputs _ _ => exact hinputs
  | component c _ => rfl

theorem output_eq : d.output = none := by
  cases h with
  | prompt p _ => rfl
  | waterfall w _ houtput _ => exact houtput
  | component c _ => rfl

theorem beforeEvent_eq (event : Event) : d.beforeEvent event = pure false := by
  cases h <;> rfl

theorem afterEvent_eq (event : Event) : d.afterEvent event = pure false := by
  cases h <;> rfl

theorem children_library {hosted : DialogSet} (hset : d.children = some hosted) :
    hosted.Library := by
  rcases h.leaf_or_component with hleaf | ⟨c, rfl, hc⟩
  · rw [hleaf.hosts] at hset
    cases hset
  · cases hset
    exact hc

end Dialog.Library
end Colloquy
