import Colloquy.Dialog.Prompt
import Colloquy.Dialog.Waterfall
import Colloquy.Proofs.Nesting.Packing

/-!
# Programs that keep to their context

A program keeps to its context when it looks at nothing around it: the turn but for the
stacks further out, its own stack and memory, and the dialogs registered there. Prompts are
made of such programs, and so are waterfalls whose steps are.
-/
namespace Colloquy

/-- Two sights show the same context over a set of dialogs, wherever its stack stands. -/
structure Sight.Alike (set : DialogSet) (s s' : Sight) : Prop where
  turn : s'.turn = s.turn.running s'.turn.stack
  stack : s'.turn.stackAt? s'.level = s.turn.stackAt? s.level
  memory : s'.turn.memory? s'.level = s.turn.memory? s.level
  described : ∀ id, (set.find? id).isSome → s'.describe s'.level id = s.describe s.level id
  registered : s'.registered = s.registered

namespace Sight.Alike
variable {set : DialogSet} {s s' : Sight} (h : s.Alike set s')
include h

theorem activity_eq : s'.turn.activity = s.turn.activity := by rw [h.turn]; rfl

theorem hasReplied_eq : s'.turn.hasReplied = s.turn.hasReplied := by rw [h.turn]; rfl

theorem get_eq (path : String) : s'.get path = s.get path := by
  have hscoped (scope : Scope) : s'.turn.scoped? s'.level scope = s.turn.scoped? s.level scope := by
    cases scope with
    | dialog => exact h.memory
    | settings | user | conversation | turn => rw [h.turn]; rfl
  simp only [get, Turn.get, hscoped]

end Sight.Alike

namespace Program
variable (set : DialogSet)

/-- The program looks at its own context, edits and notes. -/
inductive Local : Program α → Prop
  | done {outcome : Except Fault α} : Local (done outcome)
  | look {next : Sight → Program α} (hsame : ∀ s s', s.Alike set s' → next s' = next s)
      (h : ∀ s, Local (next s)) : Local (look next)
  | edit {β : Type} {e : Edit β} {next : Except Fault β → Program α} (h : ∀ r, Local (next r)) :
      Local (edit e next)
  | note {content : Json} {next : Program α} (h : Local next) : Local (note content next)

/-- The program is local up to its end, where it waits, fails, begins a prompt registered
in the set, ends its dialog or goes on with it, and returns what came of that. -/
inductive Closing : Program TurnResult → Prop
  | wait : Closing (done (.ok .waiting))
  | fail {e : Fault} : Closing (done (.error e))
  | look {next : Sight → Program TurnResult} (hsame : ∀ s s', s.Alike set s' → next s' = next s)
      (h : ∀ s, Closing (next s)) : Closing (look next)
  | edit {β : Type} {e : Edit β} {next : Except Fault β → Program TurnResult}
      (h : ∀ r, Closing (next r)) : Closing (edit e next)
  | note {content : Json} {next : Program TurnResult} (h : Closing next) :
      Closing (note content next)
  | prompt {id : String} {options : Option Json} (p : Prompt)
      (hp : set.find? id = some p.dialog) : Closing (begin id options)
  | finish {result : Option Json} : Closing (finish result)
  | next {result : Option Json} : Closing (run (.next result))

variable {set}

theorem Local.bind {p : Program α} {f : α → Program β} (hp : p.Local set)
    (hf : ∀ x, (f x).Local set) : (p >>= f).Local set := by
  induction hp with
  | @done outcome =>
    cases outcome with
    | ok x => exact hf x
    | error e => exact .done
  | look hsame _ ih =>
    exact .look (fun s s' hs => congrArg (·.bind f) (hsame s s' hs)) ih
  | edit _ ih => exact .edit ih
  | note _ ih => exact .note ih

theorem Local.closing {p : Program α} {f : α → Program TurnResult} (hp : p.Local set)
    (hf : ∀ x, (f x).Closing set) : (p >>= f).Closing set := by
  induction hp with
  | @done outcome =>
    cases outcome with
    | ok x => exact hf x
    | error e => exact .fail
  | look hsame _ ih =>
    exact .look (fun s s' hs => congrArg (·.bind f) (hsame s s' hs)) ih
  | edit _ ih => exact .edit ih
  | note _ ih => exact .note ih

/-- One operation keeps within any limit. -/
theorem Closing.limitNext {p : Program TurnResult} (h : p.Closing set) (again : Fault) :
    (p.limitNext again false).Closing set := by
  induction h with
  | wait => exact .wait
  | fail => exact .fail
  | look hsame _ ih =>
    exact .look (fun s s' hs => congrArg (·.limitNext again false) (hsame s s' hs)) ih
  | edit _ ih => exact .edit ih
  | note _ ih => exact .note ih
  | prompt p hp => exact .prompt p hp
  | finish => exact .finish
  | next => exact .next

theorem local_pure (x : α) : (pure x : Program α).Local set := .done

theorem local_ofExcept (outcome : Except Fault α) : (ofExcept outcome).Local set := .done

theorem local_change (e : Edit α) : (change e).Local set := .edit fun _ => .done

theorem local_get (path : String) : (get path).Local set := by
  refine .look (fun s s' hs => ?_) fun _ => .done
  rw [hs.get_eq]

theorem local_getAs (decode : Json → Option α) (path : String) :
    (getAs decode path).Local set := by
  refine (local_get path).bind fun found => ?_
  cases found with
  | none => exact local_pure none
  | some v => exact (local_ofExcept _).bind fun x => local_pure (some x)

theorem local_activity : activity.Local set := by
  refine .look (fun s s' hs => ?_) fun _ => .done
  rw [hs.activity_eq]

theorem local_sendText (text : String) : (sendText text).Local set :=
  local_activity.bind fun _ => local_change _

theorem closing_prompt {id : String} {p : Prompt} (hp : set.find? id = some p.dialog)
    (options : PromptOptions) : (Program.prompt id options).Closing set := by
  unfold Program.prompt
  split
  · exact .fail
  · exact .prompt p hp

end Program

/-! ## Dialogs -/

/-- A dialog with a memory of its own whose hooks keep to their context, where the set is
registered. It handles no events. -/
structure Dialog.SelfContained (set : DialogSet) (d : Dialog) : Prop where
  begins (options : Option Json) : (d.onBegin options).Closing set
  advances : d.onContinue.Closing set
  resumes (reason : Reason) (result : Option Json) : (d.onResume reason result).Closing set
  reprompts : d.onReprompt.Local set
  closes (reason : Reason) : (d.onClose reason).Local set
  before (event : Event) : d.beforeEvent event = pure false
  after (event : Event) : d.afterEvent event = pure false
  notCommand : d.kind ≠ .command

namespace Prompt
variable {set : DialogSet} (p : Prompt)

theorem local_storedOptions : storedOptions.Local set := by
  refine (Program.local_getAs _ _).bind fun options => ?_
  cases options with
  | some options => exact .done
  | none => exact .done

theorem local_reprompt : reprompt.Local set :=
  local_storedOptions.bind fun options => Program.local_sendText options.prompt

theorem closing_begin (options : Option Json) : (p.begin options).Closing set := by
  cases options with
  | none => exact .fail
  | some v =>
    refine (Program.local_ofExcept _).closing fun options => ?_
    refine (Program.local_change _).closing fun _ => ?_
    exact (Program.local_sendText options.prompt).closing fun _ => .wait

theorem local_judged (trial : Trial) : (p.judged trial).Local set := by
  have hnotes (notes : List Json) : (notes.forM Program.record).Local set := by
    induction notes with
    | nil => exact .done
    | cons content rest ih => exact Program.Local.bind (.note .done) fun _ => ih
  exact (hnotes _).bind fun _ => .done

theorem local_accept? (options : PromptOptions) : (p.accept? options).Local set := by
  refine (Program.local_getAs _ _).bind fun count => (Program.local_change _).bind fun _ => ?_
  refine Program.local_activity.bind fun a => (Program.local_ofExcept _).bind fun found => ?_
  cases found with
  | none => exact .done
  | some value =>
    refine (p.local_judged _).bind fun accepted => ?_
    cases accepted with
    | true => exact .done
    | false => exact .done

theorem closing_advance : p.advance.Closing set := by
  refine Program.local_activity.closing fun a => ?_
  split
  · exact .wait
  · refine local_storedOptions.closing fun options => ?_
    refine (p.local_accept? options).closing fun found => ?_
    cases found with
    | some value => exact .finish
    | none =>
      refine .look (fun s s' hs => ?_) fun s => ?_
      · rw [Program.pure_bind, Program.pure_bind, hs.hasReplied_eq]
      · rw [Program.pure_bind]
        split
        · exact (Program.local_sendText _).closing fun _ => .wait
        · exact .wait

/-- Whatever a prompt recognizes and accepts, it keeps to its context. -/
theorem selfContained : p.dialog.SelfContained set where
  begins := p.closing_begin
  advances := p.closing_advance
  resumes _ _ := local_reprompt.closing fun _ => .wait
  reprompts := local_reprompt
  closes _ := .done
  before _ := rfl
  after _ := rfl
  notCommand := by simp [dialog]

end Prompt

namespace Waterfall
variable {set : DialogSet} (w : Waterfall)
  (hsteps : ∀ step ∈ w.steps, ∀ input, (step input).Closing set)
include hsteps

theorem closing_runStep (index : Nat) (reason : Reason) (result : Option Json) :
    (w.runStep index reason result).Closing set := by
  unfold runStep
  split
  · exact .finish
  · next step hstep =>
    refine (Program.local_change _).closing fun _ => (Program.local_get _).closing fun options => ?_
    exact (hsteps step (List.mem_of_getElem? hstep) _).limitNext _

theorem closing_resume (reason : Reason) (result : Option Json) :
    (w.resume reason result).Closing set :=
  (Program.local_getAs _ _).closing fun _ => w.closing_runStep hsteps _ _ _

theorem selfContained : w.dialog.SelfContained set where
  begins _ := (Program.local_change _).closing fun _ => w.closing_runStep hsteps _ _ _
  advances := by
    refine Program.local_activity.closing fun a => ?_
    split
    · exact w.closing_resume hsteps _ _
    · exact .wait
  resumes := w.closing_resume hsteps
  reprompts := .done
  closes _ := .done
  before _ := rfl
  after _ := rfl
  notCommand := by simp [dialog]

end Waterfall
end Colloquy
