import Colloquy.Dialog.Component
import Colloquy.Proofs.Engine.Beginning

/-!
# Contexts whose container is gone

A child context is known by its level. It is about the stack of whatever frame is active
around it: of none when no frame is, and then nothing can be begun in it. It does not
know the frame it was derived from, so that frame's end goes unnoticed when another
frame is active in its place.
-/
namespace Colloquy

/-- The stack at a level inside another is hosted by the active frame there. -/
theorem Stack.level?_succ_eq (n : Nat) (s : Stack) :
    level? (n + 1) s = ((level? n s).bind active?).map Frame.children := by
  induction n generalizing s with
  | zero => cases s <;> rfl
  | succ n ih => cases s with
    | nil => rfl
    | cons f rest => exact ih f.children

theorem Turn.stackAt?_succ (t : Turn) (level : Nat) :
    t.stackAt? (level + 1) = (t.active? level).map Frame.children :=
  Stack.level?_succ_eq level t.stack

theorem View.level_child? {v inner : View} {t : Turn} (h : v.child? t = some inner) :
    inner.level = v.level + 1 := by
  unfold child? at h
  split at h
  · cases h
  · obtain ⟨hosted, -, rfl⟩ := Option.map_eq_some_iff.mp h
    exact level_enter v hosted

namespace Engine
variable {caller : Caller} {v : View} {s : Session} {id : String} {options : Option Json}
  {d : Dialog} {inputs : List (String × Json)}

theorem begin_detached (hgone : s.turn.stackAt? v.level = none)
    (h : Prepared v s.turn id d inputs) :
    begin caller v id options s = some (.error .detached, s) := by
  rw [begin_of_prepared h]
  simp only [pushAndBegin, pushFrame, Eval.bind_apply, Eval.turn, Eval.onTurn, hgone]

/-- A replacement has by then written its id down, but not touched the stacks. -/
theorem replace_detached (hgone : s.turn.stackAt? v.level = none)
    (h : Prepared v s.turn id d inputs) :
    replace caller v id options s = some (.error .detached, { s with turn := { s.turn with
      scratch := s.turn.scratch.insert "repeatDialogId" (.string id) } }) := by
  have hgone' : Turn.stackAt? { s.turn with
      scratch := s.turn.scratch.insert "repeatDialogId" (.string id) } v.level = none := hgone
  simp only [replace, h.found, Eval.bind_apply, Eval.turn, Eval.ofExcept, h.bound, popFrame,
    Eval.onTurn, Turn.set_repeatDialogId, hgone']

/-- A child context is about the stack that is hosted by the frame active around it,
whichever frame that is. When no frame is active there, the context has no stack. Then a
begin and a replacement fail, as detached once the id and the bindings are found good, and
leave every stack as it was. -/
theorem child_detached {inner : View} {origin : Turn} (hchild : v.child? origin = some inner)
    (caller : Caller) (s : Session) :
    s.turn.stackAt? inner.level = (s.turn.active? v.level).map Frame.children ∧
    (s.turn.active? v.level = none → s.turn.stackAt? inner.level = none ∧ ∀ id options,
      (∀ e, Unprepared inner s.turn id e →
        begin caller inner id options s = some (.error e, s) ∧
        replace caller inner id options s = some (.error e, s)) ∧
      ∀ d inputs, Prepared inner s.turn id d inputs →
        begin caller inner id options s = some (.error .detached, s) ∧
        ∃ s', replace caller inner id options s = some (.error .detached, s') ∧
          s'.turn.stack = s.turn.stack) := by
  have hstack : s.turn.stackAt? inner.level = (s.turn.active? v.level).map Frame.children := by
    rw [View.level_child? hchild]
    exact s.turn.stackAt?_succ v.level
  refine ⟨hstack, fun hinactive => ?_⟩
  have hgone : s.turn.stackAt? inner.level = none := by
    rw [hstack, hinactive]
    rfl
  refine ⟨hgone, fun id options => ⟨?_, ?_⟩⟩
  · intro e h
    exact ⟨begin_of_unprepared h, replace_of_unprepared h⟩
  · intro d inputs h
    exact ⟨begin_detached hgone h, _, replace_detached hgone h, rfl⟩

end Engine

/-! ## A box that ends while its context is in use -/

/-- A dialog that waits, whatever happens. -/
def Dialog.patient (id : String) : Dialog :=
  { id, onBegin := fun _ => pure .waiting, onResume := fun _ _ => pure .waiting }

def Component.box : Component where
  id := "box"
  initial := "inner"
  dialogs := (Table.empty.insert "inner" (.patient "inner")).insert "late" (.patient "late")

def View.shelf : View where
  own := (Table.empty.insert "base" (.patient "base")).insert "box" Component.box.dialog

/-- The box runs its inner dialog, over other frames. -/
def Session.boxing (below : Stack) : Session :=
  { turn :=
    { activity := .message "c" "go"
      stack := { id := "box", memory := some .empty, children := [.owning "inner"] } :: below } }

/-- Once the box is gone, with no frame below it, nothing can be begun in its context. -/
theorem Engine.child_detached_box :
    View.shelf.child? (Session.boxing []).turn = some (View.shelf.enter Component.box.dialogs) ∧
    let s : Session := { Session.boxing [] with turn := (Session.boxing []).turn.pop 0 }
    begin (call 3) (View.shelf.enter Component.box.dialogs) "late" none s =
      some (.error .detached, s) := by
  have hchild : View.shelf.child? (Session.boxing []).turn =
      some (View.shelf.enter Component.box.dialogs) := rfl
  refine ⟨hchild, ?_⟩
  intro s
  obtain ⟨-, hdetached⟩ := child_detached hchild (call 3) s
  obtain ⟨-, hfails⟩ := hdetached rfl
  exact ((hfails "late" none).2 (.patient "late") [] ⟨rfl, rfl⟩).1

/-- Over another frame the box is not missed: ended from inside, it leaves its context to
that frame, which is no container, and the late dialog is begun there. -/
theorem Engine.child_not_detached_over_base :
    View.shelf.child? (Session.boxing [.owning "base"]).turn =
      some (View.shelf.enter Component.box.dialogs) ∧
    ∃ s, evaluate 3 (View.shelf.enter Component.box.dialogs)
        (.within .parent (Program.finish none) fun _ => Program.begin "late")
        (.boxing [.owning "base"]) = some (.ok .waiting, s) ∧
      s.turn.stack = [{ Frame.owning "base" with children := [.owning "late"] }] :=
  ⟨rfl, _, rfl, rfl⟩

end Colloquy
