import Colloquy.Proofs.Nesting.SelfContained
import Colloquy.Proofs.Runs.Stretch

/-!
# Programs that end with one operation

The hooks of prompts, and of waterfalls whose steps are like that, look, edit and note; then they
wait, fail, or make one operation on their stack and return what comes of it. Until then, a
dialog whose frame has a memory of its own changes no frame but that one.
-/
namespace Colloquy

/-! ## Another stack at a level -/

/-- The turn is as the one before, but for the stack at a level and for what is in the scopes
that are no dialog's. -/
structure Turn.Restacked (level : Nat) (u : Stack) (t t' : Turn) : Prop where
  stack : t'.stack = Stack.put level u t.stack
  activity : t'.activity = t.activity

namespace Turn
variable {t t' t'' : Turn} {level : Nat} {f : Frame} {u w rest : Stack}

theorem Restacked.refl (hu : t.stackAt? level = some u) : Restacked level u t t :=
  ⟨(Stack.put_self hu).symm, rfl⟩

theorem restacked_put (t : Turn) (level : Nat) (u : Stack) : Restacked level u t (t.put level u) :=
  ⟨rfl, rfl⟩

theorem Restacked.trans (h : Restacked level u t t') (h' : Restacked level w t' t'') :
    Restacked level w t t'' :=
  ⟨by rw [h'.stack, h.stack, Stack.put_put], h'.activity.trans h.activity⟩

theorem Restacked.stackAt? (h : Restacked level u t t') (hw : t.stackAt? level = some w) :
    t'.stackAt? level = some u := by
  rw [Turn.stackAt?, h.stack]
  exact Stack.level?_put hw u

/-- What is done to the stack that a frame hosts is done to the frame. -/
theorem Restacked.outward (h : Restacked (level + 1) w t t')
    (hu : t.stackAt? level = some (f :: rest)) :
    Restacked level ({ f with children := w } :: rest) t t' :=
  ⟨by rw [h.stack, Stack.put_succ hu], h.activity⟩

/-! ## Edits -/

/-- A change of another scope than the dialog's leaves all stacks as they are. -/
theorem change_elsewhere (hu : t.stackAt? level = some u) {scope : Scope}
    (hscope : scope ≠ .dialog) (update : Object → Except Fault (α × Object)) :
    t.Restacked level u (t.change level scope update).2 := by
  refine ⟨(change_stack t level hscope update).trans (Stack.put_self hu).symm, ?_⟩
  cases scope with
  | dialog => exact absurd rfl hscope
  | settings => rfl
  | user | conversation | turn =>
    simp only [change, change.settle]
    split <;> rfl

theorem set_elsewhere {path : String} {p : Path} (hu : t.stackAt? level = some u)
    (hp : Path.parse path = .ok p) (hscope : p.scope ≠ .dialog) (value : Json) :
    t.Restacked level u (t.set level path value).2 := by
  rw [set, hp]
  exact change_elsewhere hu hscope _

theorem change_restacked (hu : t.stackAt? level = some (f :: rest)) (hm : f.memory.isSome)
    (scope : Scope) (update : Object → Except Fault (α × Object)) :
    ∃ m, Restacked level ({ f with memory := some m } :: rest) t
      (t.change level scope update).2 := by
  by_cases hscope : scope = .dialog
  · obtain ⟨m, outcome, hchange⟩ := change_owned hu hm update
    rw [hscope, hchange]
    exact ⟨m, restacked_put t level _⟩
  · obtain ⟨m, hm⟩ := Option.isSome_iff_exists.mp hm
    refine ⟨m, ?_⟩
    rw [f.with_memory hm]
    exact change_elsewhere hu hscope update

end Turn

/-- An edit for a frame with a memory of its own changes no frame but that one. -/
theorem Edit.apply_restacked {t : Turn} {level : Nat} {f : Frame} {rest : Stack}
    (hu : t.stackAt? level = some (f :: rest)) (hm : f.memory.isSome) (e : Edit α) :
    ∃ m, Turn.Restacked level ({ f with memory := some m } :: rest) t (e.apply level t).2 := by
  have hsame : ∃ m, Turn.Restacked level ({ f with memory := some m } :: rest) t t := by
    obtain ⟨m, hm⟩ := Option.isSome_iff_exists.mp hm
    exact ⟨m, by rw [f.with_memory hm]; exact .refl hu⟩
  cases e with
  | set path value =>
    simp only [Edit.apply, Turn.set]
    split
    · exact hsame
    · exact Turn.change_restacked hu hm _ _
  | delete path =>
    simp only [Edit.apply, Turn.delete]
    split
    · exact hsame
    · split
      · exact hsame
      · exact Turn.change_restacked hu hm _ _
  | openMemory =>
    obtain ⟨m, hm⟩ := Option.isSome_iff_exists.mp hm
    simp only [Edit.apply, Turn.openMemory_of_owned hu hm]
    exact hsame
  | send activity | takeReplies | setGlobalTags tags =>
    obtain ⟨m, hstack, hactivity⟩ := hsame
    exact ⟨m, hstack, hactivity⟩

namespace Program
variable {v : View} {t : Turn} {f : Frame} {rest : Stack}

theorem stretch_restacked (p : Program α) (hu : t.stackAt? v.level = some (f :: rest))
    (hm : f.memory.isSome) :
    ∃ m, Turn.Restacked v.level ({ f with memory := some m } :: rest) t
      (p.stretch v t).turn := by
  have hsame : ∃ m, Turn.Restacked v.level ({ f with memory := some m } :: rest) t t := by
    obtain ⟨m, hm⟩ := Option.isSome_iff_exists.mp hm
    exact ⟨m, by rw [f.with_memory hm]; exact .refl hu⟩
  induction p generalizing t f with
  | done | call | within => exact hsame
  | look next ih => exact ih (v.sight t) hu hm hsame
  | edit e next ih =>
    obtain ⟨m, hfirst⟩ := e.apply_restacked hu hm
    have hu' := hfirst.stackAt? hu
    obtain ⟨m', hrest⟩ := ih (e.apply v.level t).1 hu' rfl ⟨m, .refl hu'⟩
    exact ⟨m', hfirst.trans hrest⟩
  | note content next ih => exact ih hu hm hsame

/-! ## One operation at the end -/

/-- What a program ends with when it waits, fails, or makes one operation of its own: it begins a
dialog, goes on with the one that it is a hook of, or ends it. -/
inductive Ending (begins : String → Prop) : Program TurnResult → Prop
  | wait : Ending begins (done (.ok .waiting))
  | fail (e : Fault) : Ending begins (done (.error e))
  | begin {id : String} (h : begins id) (options : Option Json) : Ending begins (begin id options)
  | next (result : Option Json) : Ending begins (Waterfall.next result)
  | finish (result : Option Json) : Ending begins (finish result)

/-- The program comes to such an ending by itself. -/
def Brief (begins : String → Prop) (v : View) (p : Program TurnResult) : Prop :=
  ∀ t, Ending begins (p.stretch v t).left

variable {begins : String → Prop}

/-- One operation keeps within the limit. -/
theorem Ending.limitNext {p : Program TurnResult} (h : p.Ending begins) (again : Fault) :
    p.limitNext again false = p := by
  cases h <;> rfl

theorem Brief.limitNext {p : Program TurnResult} (h : p.Brief begins v) (again : Fault) :
    (p.limitNext again false).Brief begins v := by
  intro t
  rw [stretch_limitNext, (h t).limitNext]
  exact h t

/-- A part that runs no hook, and stays where it is, is left behind. -/
theorem Local.stretch_done {p : Program α} (h : p.Local .empty) (t : Turn) :
    ∃ outcome, (p.stretch v t).left = .done outcome := by
  induction h generalizing t with
  | @done outcome => exact ⟨outcome, rfl⟩
  | look _ _ ih => exact ih (v.sight t) t
  | edit _ ih => exact ih _ _
  | note _ ih => exact ih t

theorem Local.brief {p : Program α} {f : α → Program TurnResult} (hp : p.Local .empty)
    (hf : ∀ x, (f x).Brief begins v) : (p >>= f).Brief begins v := by
  intro t
  change Ending begins ((p.bind f).stretch v t).left
  obtain ⟨outcome, hdone⟩ := hp.stretch_done (v := v) t
  rw [stretch_bind, hdone]
  cases outcome with
  | ok x => exact hf x _
  | error e => exact .fail e

/-- What keeps to a context without dialogs, and closes, is brief. -/
theorem Closing.brief {p : Program TurnResult} (h : p.Closing .empty) : p.Brief begins v := by
  intro t
  induction h generalizing t with
  | wait => exact .wait
  | fail => exact .fail _
  | look _ _ ih => exact ih (v.sight t) t
  | edit _ ih => exact ih _ _
  | note _ ih => exact ih t
  | prompt p hp => cases hp
  | finish => exact .finish _
  | next => exact .next _

end Program

/-! ## Dialogs with such hooks -/

/-- The program that a hook runs to say what the stack has come to. -/
inductive Dialog.Turning (d : Dialog) : Hook → Program TurnResult → Prop
  | begin (options : Option Json) : Turning d (.begin options) (d.onBegin options)
  | advance : Turning d .advance d.onContinue
  | resume (reason : Reason) (result : Option Json) :
      Turning d (.resume reason result) (d.onResume reason result)

theorem Dialog.Turning.unique {d : Dialog} {hook : Hook} {p p' : Program TurnResult}
    (h : d.Turning hook p) (h' : d.Turning hook p') : p = p' := by
  cases h <;> cases h' <;> rfl

/-- The dialog has a memory of its own and takes no notice of its end. Its hooks are brief, and
it waits out activities that are no messages. -/
structure Dialog.Simple (begins : String → Prop) (v : View) (d : Dialog) : Prop where
  owning : d.kind ≠ .command
  unnoticed : d.onClose .ended = pure ()
  brief {hook : Hook} {p : Program TurnResult} (h : d.Turning hook p) : p.Brief begins v
  other {t : Turn} (h : t.activity.isMessage = false) :
    d.onContinue.stretch v t = ⟨.done (.ok .waiting), t, []⟩

variable {begins : String → Prop} {v : View}

theorem Prompt.simple (p : Prompt) : p.dialog.Simple begins v where
  owning := Kind.noConfusion
  unnoticed := rfl
  brief h := by
    cases h with
    | begin options => exact (p.selfContained.begins options).brief
    | advance => exact p.selfContained.advances.brief
    | resume reason result => exact (p.selfContained.resumes reason result).brief
  other h := by
    change p.advance.stretch v _ = _
    rw [advance, Program.stretch_then (Program.stretch_activity _), Stretch.noting_nil, h]
    rfl

namespace Waterfall
variable (w : Waterfall) (hsteps : ∀ step ∈ w.steps, ∀ input, (step input).Brief begins v)
include hsteps

theorem brief_runStep (index : Nat) (reason : Reason) (result : Option Json) :
    (w.runStep index reason result).Brief begins v := by
  unfold runStep
  split
  · exact fun _ => .finish result
  · next step hstep =>
    refine (Program.local_change _).brief fun _ => ?_
    refine (Program.local_get _).brief fun options => ?_
    exact (hsteps step (List.mem_of_getElem? hstep) _).limitNext _

theorem brief_resume (reason : Reason) (result : Option Json) :
    (w.resume reason result).Brief begins v :=
  (Program.local_getAs _ _).brief fun _ => w.brief_runStep hsteps _ _ _

theorem simple : w.dialog.Simple begins v where
  owning := Kind.noConfusion
  unnoticed := rfl
  brief h := by
    cases h with
    | begin options =>
      exact (Program.local_change _).brief fun _ => w.brief_runStep hsteps _ _ _
    | advance =>
      refine Program.local_activity.brief fun a => ?_
      split
      · exact w.brief_resume hsteps _ _
      · exact fun _ => .wait
    | resume reason result => exact w.brief_resume hsteps _ _
  other h := by
    change w.advance.stretch v _ = _
    rw [advance, Program.stretch_then (Program.stretch_activity _), Stretch.noting_nil, h]
    rfl

end Waterfall
end Colloquy
