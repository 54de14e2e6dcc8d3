import Colloquy.Dialog.Basic

/-!
# Views

A view is the place in the nested contexts from which the engine is used: the set
of dialogs registered there and the sets around it, the innermost first. A view
holds no state; its level says which stack of the turn it works on.
-/
namespace Colloquy

structure View where
  own : DialogSet
  outer : List DialogSet := []

namespace View

def level (v : View) : Nat := v.outer.length

def sets (v : View) : List DialogSet := v.own :: v.outer

/-- The dialog an id means here: the own set goes before the enclosing ones. -/
def find? (v : View) (id : String) : Option Dialog := v.sets.findSome? (·.find? id)

def parent? (v : View) : Option View :=
  match v.outer with
  | [] => none
  | own :: outer => some { own, outer }

/-- The view one level in, over a set of dialogs hosted here. -/
def enter (v : View) (hosted : DialogSet) : View := { own := hosted, outer := v.sets }

/-- The view at a level that is not further in. -/
def atLevel (v : View) (level : Nat) : View :=
  match v.sets.drop (v.level - level) with
  | [] => v
  | own :: outer => { own, outer }

/-- The child context hosted by the active dialog, if it hosts one. -/
def child? (v : View) (t : Turn) : Option View :=
  match t.active? v.level with
  | none => none
  | some f => ((v.find? f.id).bind Dialog.children).map v.enter

def at? (v : View) (t : Turn) : Place → Option View
  | .child => v.child? t
  | .parent => v.parent?

/-- The innermost view reached through an active frame, as long as its dialog hosts
a stack that is not empty. -/
def leafUnder (v : View) : Frame → View
  | ⟨_, _, _, []⟩ => v
  | ⟨id, _, _, f :: _⟩ =>
    match (v.find? id).bind Dialog.children with
    | none => v
    | some hosted => leafUnder (v.enter hosted) f

def leaf (v : View) (t : Turn) : View :=
  match t.active? v.level with
  | none => v
  | some f => v.leafUnder f

def describe (v : View) (level : Nat) (id : String) : Option Description :=
  ((v.atLevel level).find? id).map Dialog.description

def sight (v : View) (turn : Turn) : Sight :=
  { level := v.level, turn, registered := v.own.size, describe := v.describe }

@[simp] theorem level_enter (v : View) (hosted : DialogSet) :
    (v.enter hosted).level = v.level + 1 := rfl

theorem level_parent? {v p : View} (h : v.parent? = some p) : v.level = p.level + 1 := by
  unfold parent? at h
  split at h
  · simp at h
  · next own outer eq => cases h; simp [level, eq]

theorem level_eq_zero {v : View} (h : v.parent? = none) : v.level = 0 := by
  obtain ⟨own, outer⟩ := v
  cases outer with
  | nil => rfl
  | cons next outer => cases h

theorem sets_parent? {v p : View} (h : v.parent? = some p) : v.sets = v.own :: p.sets := by
  obtain ⟨own, outer⟩ := v
  cases outer with
  | nil => cases h
  | cons next outer =>
    cases h
    rfl

theorem sets_parent?_suffix {v p : View} (h : v.parent? = some p) : p.sets <:+ v.sets :=
  sets_parent? h ▸ List.suffix_cons v.own p.sets

theorem eq_of_sets {v v' : View} (h : v.sets = v'.sets) : v = v' := by
  cases v
  cases v'
  simpa [sets] using h

/-- A level keeps the sets that are not further in. -/
theorem sets_atLevel (v : View) (level : Nat) :
    (v.atLevel level).sets = v.sets.drop (v.level - level) := by
  have hsome : v.sets.drop (v.level - level) ≠ [] := by
    simp only [ne_eq, List.drop_eq_nil_iff, sets, List.length_cons, View.level]
    omega
  obtain ⟨own, outer, hsets⟩ := List.exists_cons_of_ne_nil hsome
  rw [atLevel, hsets]
  rfl

end View

namespace Sight

/-- Keeps the first of equal texts. -/
def distinct (texts : List String) : List String :=
  texts.foldl (fun seen text => if seen.contains text then seen else seen ++ [text]) []

/-- The global tags, then the tags of the frames of each level from the root in,
the active frame first. An id is looked up among the dialogs of its own level. -/
def activeTags (s : Sight) : List String :=
  let tagsAt (level : Nat) (stack : Stack) :=
    stack.flatMap fun f => ((s.describe level f.id).map Description.tags).getD []
  let levels := (s.turn.chain s.level).zipIdx.flatMap fun (stack, level) => tagsAt level stack
  distinct (s.turn.globalTags ++ levels)

end Sight
end Colloquy
