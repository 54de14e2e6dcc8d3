import Colloquy.Turn.Memory

/-!
# Where memories are

A frame owns a memory, or shares that of the frame below it or, at the bottom of a hosted
stack, that of the frame that hosts it. In a tree of such frames every shared memory is
found: the search goes down and outward, and the bottom frame of the root stack, which has
nothing to share, owns one.
-/
namespace Colloquy

/-- What a frame at a position shares when it owns nothing, given the position of the frame
that hosts its stack. -/
def Location.beneath? (host : Option Nat) : Nat → Option Location
  | below + 1 => some (.own below)
  | 0 => host.map .enclosing

namespace Frame

/-- The frame owns a memory and shares none, or it owns none and shares what is beneath. -/
def Linked (host : Option Nat) (position : Nat) (f : Frame) : Prop :=
  (f.memory.isSome ∧ f.shared = none) ∨
    (f.memory = none ∧ f.shared.isSome ∧ f.shared = Location.beneath? host position)

end Frame

mutual
/-- The frame is linked where it stands, and so are all frames inside it. -/
def Frame.Placed (host : Option Nat) (position : Nat) : Frame → Prop
  | ⟨id, memory, shared, children⟩ =>
    Frame.Linked host position ⟨id, memory, shared, children⟩ ∧
      Stack.Placed (some position) children

/-- Every frame of the stack is linked where it stands, and so are all frames inside. -/
def Stack.Placed (host : Option Nat) : List Frame → Prop
  | [] => True
  | f :: below => f.Placed host below.length ∧ Stack.Placed host below
end

namespace Frame

theorem placed_iff {host : Option Nat} {position : Nat} {f : Frame} :
    f.Placed host position ↔ f.Linked host position ∧ Stack.Placed (some position) f.children := by
  cases f
  rw [Placed]

theorem linked_owning (host : Option Nat) (position : Nat) (id : String) :
    (owning id).Linked host position := .inl ⟨rfl, rfl⟩

theorem linked_sharing {host : Option Nat} {position : Nat} {l : Location} (id : String)
    (h : Location.beneath? host position = some l) : (sharing id l).Linked host position :=
  .inr ⟨rfl, rfl, h.symm⟩

end Frame

namespace Stack
variable {host : Option Nat} {s u : Stack} {f : Frame}

@[simp] theorem placed_nil : Placed host [] := by
  rw [Placed]
  trivial

@[simp] theorem placed_cons :
    Placed host (f :: s) ↔ f.Placed host s.length ∧ Placed host s := by rw [Placed]

theorem Placed.drop (h : Placed host s) (k : Nat) : Placed host (s.drop k) := by
  induction s generalizing k with
  | nil => simp
  | cons f below ih =>
    cases k with
    | zero => exact h
    | succ k => exact ih (placed_cons.mp h).2 k

theorem Placed.tail (h : Placed host s) : Placed host s.tail := by
  rw [← List.drop_one]
  exact h.drop 1

theorem Placed.truncate (h : Placed host s) (depth : Nat) : Placed host (s.truncate depth) :=
  h.drop _

/-! ## Positions -/

theorem at?_cons (f : Frame) (below : Stack) (position : Nat) :
    at? (f :: below) position =
      if position = below.length then some f else at? below position := by
  simp only [at?, List.reverse_cons]
  by_cases h : position < below.length
  · rw [List.getElem?_append_left (by simpa using h), if_neg (by omega)]
  · rw [List.getElem?_append_right (by simpa using h)]
    by_cases heq : position = below.length
    · simp [heq]
    · have hnone : below.reverse[position]? = none := by simp; omega
      rw [if_neg heq, hnone, List.getElem?_eq_none (by simp; omega)]

theorem modify_concat (l : List Frame) (f : Frame) (n : Nat) (change : Frame → Frame) :
    (l ++ [f]).modify n change =
      if n = l.length then l ++ [change f] else l.modify n change ++ [f] := by
  induction l generalizing n with
  | nil => cases n <;> simp
  | cons g rest ih =>
    cases n with
    | zero => simp
    | succ n =>
      simp only [List.cons_append, List.modify_succ_cons, ih, List.length_cons,
        Nat.add_right_cancel_iff]
      split <;> rfl

theorem modifyAt_cons (f : Frame) (below : Stack) (position : Nat) (change : Frame → Frame) :
    modifyAt (f :: below) position change =
      if position = below.length then change f :: below
      else f :: modifyAt below position change := by
  simp only [modifyAt, List.reverse_cons, modify_concat, List.length_reverse]
  split <;> simp

@[simp] theorem length_modifyAt (s : Stack) (position : Nat) (change : Frame → Frame) :
    (modifyAt s position change).length = s.length := by simp [modifyAt]

theorem at?_drop {position k : Nat} (h : position < (s.drop k).length) :
    at? (s.drop k) position = at? s position := by
  induction s generalizing k with
  | nil => simp at h
  | cons f below ih =>
    cases k with
    | zero => rfl
    | succ k =>
      have hshort : (below.drop k).length ≤ below.length := by simp
      rw [at?_cons, if_neg (by simp only [List.drop_succ_cons] at h; omega)]
      exact ih h

/-- Writing into a memory that is there leaves every frame where it is. -/
theorem Placed.write (h : Placed host s) {position : Nat} {m : Object}
    (howner : ∀ g, s.at? position = some g → g.memory.isSome) :
    Placed host (s.modifyAt position ({ · with memory := some m })) := by
  induction s with
  | nil => simp [modifyAt]
  | cons f below ih =>
    obtain ⟨hf, hbelow⟩ := placed_cons.mp h
    rw [modifyAt_cons]
    split
    · next heq =>
      have hmemory : f.memory.isSome := howner f (by rw [at?_cons, if_pos heq])
      obtain ⟨hlinked, hchildren⟩ := Frame.placed_iff.mp hf
      refine placed_cons.mpr ⟨Frame.placed_iff.mpr ⟨.inl ⟨rfl, ?_⟩, hchildren⟩, hbelow⟩
      rcases hlinked with ⟨-, hshared⟩ | ⟨hnone, -, -⟩
      · exact hshared
      · rw [hnone] at hmemory
        cases hmemory
    · next hne =>
      refine placed_cons.mpr ⟨by simpa using hf, ih hbelow fun g hg => howner g ?_⟩
      rw [at?_cons, if_neg hne, hg]

/-! ## Levels -/

/-- The position of the frame that hosts the stack at a level. -/
def hostAt (host : Option Nat) : Nat → Stack → Option Nat
  | 0, _ => host
  | _ + 1, [] => none
  | n + 1, f :: below => hostAt (some below.length) n f.children

theorem hostAt_succ {n : Nat} {rest : Stack} (h : level? n s = some (f :: rest)) :
    hostAt host (n + 1) s = some rest.length := by
  induction n generalizing s host with
  | zero =>
    obtain rfl := Option.some.inj h
    rfl
  | succ n ih =>
    cases s with
    | nil => cases h
    | cons g below => exact ih h

theorem Placed.level {n : Nat} (h : Placed host s) (hu : level? n s = some u) :
    Placed (hostAt host n s) u := by
  induction n generalizing s host with
  | zero =>
    obtain rfl := Option.some.inj hu
    exact h
  | succ n ih =>
    cases s with
    | nil => cases hu
    | cons g below => exact ih (Frame.placed_iff.mp (placed_cons.mp h).1).2 hu

/-- A change at a level that keeps the frames there where they are keeps all frames. -/
theorem Placed.modifyLevel {n : Nat} {change : Stack → Stack} (h : Placed host s)
    (hchange : ∀ u, level? n s = some u → Placed (hostAt host n s) (change u)) :
    Placed host (modifyLevel change n s) := by
  induction n generalizing s host with
  | zero => exact hchange s rfl
  | succ n ih =>
    cases s with
    | nil => exact h
    | cons g below =>
      obtain ⟨hg, hbelow⟩ := placed_cons.mp h
      obtain ⟨hlinked, hchildren⟩ := Frame.placed_iff.mp hg
      exact placed_cons.mpr ⟨Frame.placed_iff.mpr ⟨hlinked, ih hchildren hchange⟩, hbelow⟩

end Stack
end Colloquy
