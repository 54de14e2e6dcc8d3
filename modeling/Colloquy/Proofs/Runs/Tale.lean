import Colloquy.Proofs.Runs.Above
import Colloquy.Proofs.Runs.Steps
import Mathlib.Data.List.TakeWhile

/-!
# The steps that were run

The calls of hooks say in which order a waterfall in a frame was called on to run its steps. The
tale of a waterfall gives for each of these calls the step that was run in it, what it was run
with, and what led there.
-/
namespace Colloquy

/-- An element of a list that grows at its end is the new one, or was there before. -/
theorem split_of_concat {l before after : List α} {x y : α} (h : l ++ [x] = before ++ y :: after) :
    (before = l ∧ y = x) ∨ ∃ after', l = before ++ y :: after' := by
  rcases List.eq_nil_or_concat after with rfl | ⟨after, last, rfl⟩
  · obtain ⟨rfl, hlast⟩ := List.append_inj' h rfl
    exact .inl ⟨rfl, (List.singleton_inj.mp hlast).symm⟩
  · rw [List.concat_eq_append, ← List.cons_append, ← List.append_assoc] at h
    exact .inr ⟨after, (List.append_inj' h rfl).1⟩

/-! ## The calls in which steps are run -/

namespace HookCall

/-- The call is one for the frame at a position. -/
def isAt (level depth : Nat) (c : HookCall) : Bool := c.level == level && c.depth == depth

/-- The call tells the dialog that its frame ends. -/
def closes (c : HookCall) : Bool :=
  match c.hook with
  | .close _ => true
  | _ => false

/-- What a call has for the step that is run in it: the text of a message that the waterfall goes
on with, or the result that it is resumed with. -/
def result? (c : HookCall) : Option Json :=
  match c.hook with
  | .advance => c.turn.activity.text.map .string
  | .resume _ result => result
  | _ => none

/-- In such a call a waterfall runs a step: it begins, is resumed, or goes on with a message. -/
def runsStep (c : HookCall) : Bool :=
  match c.hook with
  | .begin _ | .resume _ _ => true
  | .advance => c.turn.activity.isMessage
  | _ => false

end HookCall

/-- The calls in which a waterfall in the frame at a position runs its steps, until that frame is
told that it ends. -/
def visits (level depth : Nat) (calls : List HookCall) : List HookCall :=
  (calls.takeWhile fun c => !(c.isAt level depth && c.closes)).filter
    fun c => c.isAt level depth && c.runsStep

section
variable {level depth : Nat} {calls more : List HookCall} {c : HookCall}

/-- The frame has not been told that it ends. -/
def Unclosed (level depth : Nat) (calls : List HookCall) : Prop :=
  ∀ c ∈ calls, (c.isAt level depth && c.closes) = false

theorem visits_append (h : Unclosed level depth calls) (more : List HookCall) :
    visits level depth (calls ++ more) = visits level depth calls ++ visits level depth more := by
  have hall : ∀ c ∈ calls, (!(c.isAt level depth && c.closes)) = true := by
    intro c hc
    rw [h c hc]
    rfl
  rw [visits, List.takeWhile_append_of_pos hall, List.filter_append, visits, visits,
    List.takeWhile_eq_self_iff.mpr hall]

theorem visits_append_nil (h : Unclosed level depth calls) (hmore : visits level depth more = []) :
    visits level depth (calls ++ more) = visits level depth calls := by
  rw [visits_append h, hmore, List.append_nil]

theorem visits_closed (hat : c.isAt level depth) (hcloses : c.closes) (more : List HookCall) :
    visits level depth (c :: more) = [] := by
  simp [visits, hat, hcloses]

theorem visits_visit (hat : c.isAt level depth) (hruns : c.runsStep) (hcloses : c.closes = false) :
    visits level depth [c] = [c] := by
  simp [visits, hat, hruns, hcloses]

/-- A call in which no step is run. -/
theorem visits_idle (hcloses : c.closes = false) (hruns : c.runsStep = false) :
    visits level depth [c] = [] := by
  simp [visits, hcloses, hruns]

/-- Once the frame has been told that it ends, no step is run. -/
theorem visits_append_of_closed (hc : c ∈ calls) (hat : c.isAt level depth) (hcloses : c.closes)
    (more : List HookCall) : visits level depth (calls ++ more) = visits level depth calls := by
  have hstops : ((calls.takeWhile fun c => !(c.isAt level depth && c.closes)).length
      ≠ calls.length) := by
    intro hall
    have := List.takeWhile_eq_self_iff.mp ((List.takeWhile_sublist _).eq_of_length hall) c hc
    simp [hat, hcloses] at this
  rw [visits, List.takeWhile_append, if_neg hstops, visits]

/-- Calls for other frames run no step of the waterfall and do not close its frame. -/
theorem visits_elsewhere (h : ∀ c ∈ calls, c.isAt level depth = false) :
    visits level depth calls = [] ∧ Unclosed level depth calls := by
  have hopen : Unclosed level depth calls := by
    intro c hc
    rw [h c hc]
    rfl
  refine ⟨List.filter_eq_nil_iff.mpr fun c hc => ?_, hopen⟩
  rw [h c ((List.takeWhile_sublist _).subset hc)]
  exact Bool.false_ne_true

theorem mem_of_mem_visits (h : c ∈ visits level depth calls) : c ∈ calls :=
  (List.takeWhile_sublist _).subset (List.mem_filter.mp h).1

theorem Engine.Over.elsewhere {v : View} {f : Frame} {u : Stack} (h : Over v (f :: u) c) :
    c.isAt v.level (u.length + 1) = false := by
  rcases h with hlevel | ⟨hlevel, hdepth⟩
  · simp [HookCall.isAt, Nat.ne_of_gt hlevel]
  · rw [List.length_cons] at hdepth
    simp [HookCall.isAt, Nat.ne_of_gt hdepth]

end

/-! ## The tale of a waterfall -/

/-- A step that was run: the call in which it was, what it was run with, and the turn that it
found. -/
structure StepRun where
  call : HookCall
  input : StepInput
  turn : Turn

namespace Waterfall
open Engine

section
variable (w : Waterfall) (v : View)

/-- What the step ended with by itself: an operation, or none. -/
def left (σ : StepRun) : Program TurnResult := ((w.stepAt σ.input).stretch v σ.turn).left

/-- What the steps saved, in order. -/
def saved (runs : List StepRun) : Object :=
  runs.foldl (fun m σ => m.saveAll ((w.stepAt σ.input).saves v σ.turn)) .empty

variable (base : Stack) (id : String)

/-- What leads from the step before, if there was one, to the next, in which call that is, and
what the next step is run with: nothing when the waterfall begins, the text of a message after a
step that waited, the value that a step went on with, and the result of the dialog that a step
began. That dialog came to its end between the two, with this result and no other. -/
inductive Leads (calls : List HookCall) : Option StepRun → HookCall → StepInput → Prop
  | begun {c : HookCall} {input : StepInput} {given : Option Json} (hhook : c.hook = .begin given)
      (hreason : input.reason = .begun) (hresult : input.result = none) :
      Leads calls none c input
  | waited {σ : StepRun} {c : HookCall} {input : StepInput}
      (hleft : w.left v σ = .done (.ok .waiting)) (hhook : c.hook = .advance)
      (hmessage : c.turn.activity.isMessage) (hreason : input.reason = .continued)
      (hresult : input.result = c.turn.activity.text.map .string) : Leads calls (some σ) c input
  | advanced {σ : StepRun} {c : HookCall} {input : StepInput} {result : Option Json}
      (hleft : w.left v σ = Waterfall.next result) (hhook : c.hook = .resume .advanced result)
      (hreason : input.reason = .advanced) (hresult : input.result = result) :
      Leads calls (some σ) c input
  | ended {σ : StepRun} {c b : HookCall} {input : StepInput} {child : String}
      {given : Option Json} {m : Object} (hleft : w.left v σ = Program.begin child given)
      (hhook : c.hook = .resume .ended input.result) (hreason : input.reason = .ended)
      (hended : ∀ result,
        Ended v (frame id m :: base) child result b ↔ result = input.result)
      (hbetween : [σ.call, b, c].Sublist calls) : Leads calls (some σ) c input

/-- A step was run, after others, as it should have been. -/
structure Told (options : Option Json) (calls : List HookCall) (before : List StepRun)
    (σ : StepRun) : Prop where
  index : σ.input.index = before.length
  options : σ.input.options = options
  runs : ∃ p, w.dialog.Turning σ.call.hook p ∧
    p.stretch v σ.call.turn = (w.stepAt σ.input).stretch v σ.turn
  found : ∃ m, σ.call.turn.Restacked v.level (frame id m :: base) σ.turn
  values : values.stretch v σ.turn = ⟨.done (.ok (w.saved v before)), σ.turn, []⟩
  leads : w.Leads v base id calls before.getLast? σ.call σ.input

/-- The steps that were run in these calls are the steps of the waterfall in order, each as it
should have been. -/
structure Tale (options : Option Json) (calls : List HookCall) (runs : List StepRun) : Prop where
  visited : runs.map StepRun.call = visits v.level (base.length + 1) calls
  told : ∀ before σ after, runs = before ++ σ :: after → w.Told v base id options calls before σ

end

section
variable {w : Waterfall} {v : View} {base : Stack} {id : String} {options : Option Json}
  {calls calls' : List HookCall} {runs before : List StepRun} {σ : StepRun} {prev : Option StepRun}
  {c : HookCall} {input : StepInput}

theorem Leads.mono (h : w.Leads v base id calls prev c input) (hcalls : calls.Sublist calls') :
    w.Leads v base id calls' prev c input := by
  cases h with
  | begun hhook hreason hresult => exact .begun hhook hreason hresult
  | waited hleft hhook hmessage hreason hresult =>
    exact .waited hleft hhook hmessage hreason hresult
  | advanced hleft hhook hreason hresult => exact .advanced hleft hhook hreason hresult
  | ended hleft hhook hreason hended hbetween =>
    exact .ended hleft hhook hreason hended (hbetween.trans hcalls)

theorem Told.mono (h : w.Told v base id options calls before σ) (hcalls : calls.Sublist calls') :
    w.Told v base id options calls' before σ :=
  { h with leads := h.leads.mono hcalls }

theorem Tale.nil (w : Waterfall) (v : View) (base : Stack) (id : String) (options : Option Json) :
    w.Tale v base id options [] [] where
  visited := rfl
  told before σ after hruns := by cases before <;> cases hruns

/-- No step of the waterfall is run in calls that are made after. -/
theorem Tale.extend (h : w.Tale v base id options calls runs) {more : List HookCall}
    (hsame : visits v.level (base.length + 1) (calls ++ more) =
      visits v.level (base.length + 1) calls) :
    w.Tale v base id options (calls ++ more) runs where
  visited := h.visited.trans hsame.symm
  told before σ after hruns :=
    (h.told before σ after hruns).mono (List.sublist_append_left calls more)

/-- One more step is run. -/
theorem Tale.concat (h : w.Tale v base id options calls runs)
    (hopen : Unclosed v.level (base.length + 1) calls)
    (hat : σ.call.isAt v.level (base.length + 1)) (hruns : σ.call.runsStep)
    (hcloses : σ.call.closes = false)
    (hσ : w.Told v base id options (calls ++ [σ.call]) runs σ) :
    w.Tale v base id options (calls ++ [σ.call]) (runs ++ [σ]) where
  visited := by
    rw [visits_append hopen, visits_visit hat hruns hcloses, List.map_append, h.visited]
    rfl
  told before τ after heq := by
    rcases split_of_concat heq with ⟨rfl, rfl⟩ | ⟨after, heq⟩
    · exact hσ
    · exact (h.told before τ after heq).mono (List.sublist_append_left _ _)

theorem Leads.result (h : w.Leads v base id calls prev c input) : input.result = c.result? := by
  cases h with
  | begun hhook _ hresult => simp only [HookCall.result?, hhook, hresult]
  | waited _ hhook _ _ hresult => simp only [HookCall.result?, hhook, hresult]
  | advanced _ hhook _ hresult => simp only [HookCall.result?, hhook, hresult]
  | ended _ hhook => simp only [HookCall.result?, hhook]

/-- What the steps were run with is what the calls have for them. -/
theorem Tale.results (h : w.Tale v base id options calls runs) :
    runs.map (fun σ => σ.input.result) =
      (visits v.level (base.length + 1) calls).map HookCall.result? := by
  rw [← h.visited, List.map_map]
  refine List.map_congr_left fun σ hσ => ?_
  obtain ⟨before, after, rfl⟩ := List.append_of_mem hσ
  exact (h.told before σ after rfl).leads.result

theorem Tale.index_last (h : w.Tale v base id options calls runs) (hlast : runs.getLast? = some σ) :
    σ.input.index + 1 = runs.length := by
  obtain ⟨before, rfl⟩ := List.getLast?_eq_some_iff.mp hlast
  rw [(h.told before σ [] rfl).index, List.length_append]
  rfl

theorem saved_concat (w : Waterfall) (v : View) (runs : List StepRun) (σ : StepRun) :
    w.saved v (runs ++ [σ]) = (w.saved v runs).saveAll ((w.stepAt σ.input).saves v σ.turn) :=
  List.foldl_append

end

end Waterfall
end Colloquy
