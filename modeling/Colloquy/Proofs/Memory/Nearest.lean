import Colloquy.Proofs.Memory.Placement

/-!
# The nearest owner

A location that names a frame of a chain leads to the first frame that owns a memory, going down
from the named frame and then through each enclosing stack from its active frame down, and to the
named frame itself if there is none. The search can be walked from position to position without
looking for a stack that is not there.
-/
namespace Colloquy

namespace Stack
variable {s : Stack} {position : Nat}

/-- The frame at the position owns a memory. -/
def ownsAt (s : Stack) (position : Nat) : Bool := (s.at? position).any (·.memory.isSome)

/-- The first position, from the given one down, whose frame owns a memory. -/
def scan? (s : Stack) : Nat → Option Nat
  | 0 => if s.ownsAt 0 then some 0 else none
  | position + 1 => if s.ownsAt (position + 1) then some (position + 1) else s.scan? position

/-- A frame stands on those below it. -/
theorem downFrom_eq_cons (h : position < s.length) :
    ∃ f, s.at? position = some f ∧ s.downFrom position = f :: s.drop (s.length - position) := by
  have hlt : s.length - (position + 1) < s.length := by omega
  refine ⟨s[s.length - (position + 1)], ?_, ?_⟩
  · rw [at?, List.getElem?_reverse h, Nat.sub_sub, Nat.add_comm 1, List.getElem?_eq_getElem hlt]
  · rw [downFrom, List.drop_eq_getElem_cons hlt]
    congr 2
    omega

/-- Going down by positions is going down the frames that stand there. -/
theorem scan?_eq_owner? (h : position < s.length) :
    s.scan? position = owner? (s.downFrom position) := by
  induction position with
  | zero =>
    obtain ⟨f, hf, hdown⟩ := downFrom_eq_cons h
    rw [Nat.sub_zero, List.drop_length] at hdown
    simp only [scan?, ownsAt, hf, hdown, owner?, Option.any_some, List.length_nil]
  | succ position ih =>
    obtain ⟨f, hf, hdown⟩ := downFrom_eq_cons h
    have hbelow : (s.drop (s.length - (position + 1))).length = position + 1 := by
      rw [List.length_drop]
      omega
    rw [scan?, ih (by omega), hdown, owner?, hbelow, ownsAt, hf]
    rfl

end Stack

namespace Address

/-- Addresses at a level, from below a position down to the bottom. -/
def downward (level count : Nat) : List Address := (List.range count).reverse.map (Address.mk level)

/-- The frame at the address owns a memory. -/
def owns (chain : List Stack) (a : Address) : Bool := (chain[a.level]?).any (·.ownsAt a.position)

/-- The order of the search from an address: its frame and those below, then the frames of each
enclosing stack from the active one down. -/
def outward (chain : List Stack) (a : Address) : List Address :=
  downward a.level (a.position + 1) ++
    (List.range a.level).reverse.flatMap fun level =>
      downward level (((chain[level]?).map List.length).getD 0)

theorem downward_succ (level count : Nat) :
    downward level (count + 1) = ⟨level, count⟩ :: downward level count := by
  simp [downward, List.range_succ]

theorem outward_succ {chain : List Stack} {level : Nat} {f : Frame} {below : Stack}
    (h : chain[level]? = some (f :: below)) (position : Nat) :
    outward chain ⟨level + 1, position⟩ =
      downward (level + 1) (position + 1) ++ outward chain ⟨level, below.length⟩ := by
  simp [outward, List.range_succ, h]

/-- The first owner in a stack, from a position down. -/
theorem find?_downward {chain : List Stack} {level : Nat} {s : Stack} (hs : chain[level]? = some s)
    (position : Nat) : (downward level (position + 1)).find? (owns chain) =
      (s.scan? position).map (Address.mk level) := by
  have howns (position : Nat) : owns chain ⟨level, position⟩ = s.ownsAt position := by
    simp [owns, hs]
  induction position with
  | zero =>
    rw [downward_succ, List.find?_cons, howns, Stack.scan?]
    cases s.ownsAt 0 <;> rfl
  | succ position ih =>
    rw [downward_succ, List.find?_cons, howns, ih, Stack.scan?]
    cases s.ownsAt (position + 1) <;> rfl

end Address

namespace Location
variable {chain : List Stack} {level position : Nat} {s : Stack} {target : Address}

/-! ## The walk -/

/-- The search from a position of a level, one frame at a time. There is no result if it looks for
a stack that the chain does not have. -/
def walk? (chain : List Stack) (target : Address) : Nat → Nat → Option Address
  | 0, position => do
    let s ← chain[0]?
    return ((s.scan? position).map (Address.mk 0)).getD target
  | outer + 1, position => do
    let s ← chain[outer + 1]?
    match s.scan? position with
    | some owner => return ⟨outer + 1, owner⟩
    | none =>
      match ← chain[outer]? with
      | [] => return target
      | _ :: below => walk? chain target outer below.length

theorem walk?_of_some {owner : Nat} (hs : chain[level]? = some s)
    (h : s.scan? position = some owner) :
    walk? chain target level position = some ⟨level, owner⟩ := by
  cases level <;> simp [walk?, hs, h]

theorem walk?_zero (hs : chain[0]? = some s) (h : s.scan? position = none) :
    walk? chain target 0 position = some target := by
  simp [walk?, hs, h]

theorem walk?_empty {outer : Nat} (hs : chain[outer + 1]? = some s) (h : s.scan? position = none)
    (haround : chain[outer]? = some []) :
    walk? chain target (outer + 1) position = some target := by
  simp [walk?, hs, h, haround]

theorem walk?_cons {outer : Nat} {f : Frame} {below : Stack} (hs : chain[outer + 1]? = some s)
    (h : s.scan? position = none) (haround : chain[outer]? = some (f :: below)) :
    walk? chain target (outer + 1) position = walk? chain target outer below.length := by
  simp [walk?, hs, h, haround]

/-- A walk looks for nothing that is not there and finds what the search finds. -/
theorem walk?_eq (hs : chain[level]? = some s) (hposition : position < s.length) :
    walk? chain target level position = some ((Stack.ownerOutward?
      (s.downFrom position :: (chain.take level).reverse)).getD target) := by
  induction level generalizing s position with
  | zero =>
    have hscan := Stack.scan?_eq_owner? hposition
    cases howner : s.scan? position with
    | some owner => simp [walk?_of_some hs howner, Stack.ownerOutward?, ← hscan, howner]
    | none => simp [walk?_zero hs howner, Stack.ownerOutward?, ← hscan, howner]
  | succ outer ih =>
    have hscan := Stack.scan?_eq_owner? hposition
    have hlt : outer + 1 < chain.length := (List.getElem?_eq_some_iff.mp hs).1
    cases howner : s.scan? position with
    | some owner =>
      have hlength : (chain.take (outer + 1)).reverse.length = outer + 1 := by
        rw [List.length_reverse, List.length_take_of_le (by omega)]
      simp only [walk?_of_some hs howner, Stack.ownerOutward?, ← hscan, howner, hlength]
      rfl
    | none =>
      obtain ⟨around, haround⟩ : ∃ around, chain[outer]? = some around :=
        ⟨_, List.getElem?_eq_getElem (by omega)⟩
      have htake : (chain.take (outer + 1)).reverse = around :: (chain.take outer).reverse := by
        simp [List.take_add_one, haround]
      cases around with
      | nil =>
        rw [walk?_empty hs howner haround, htake]
        simp [Stack.ownerOutward?, ← hscan, howner]
      | cons f below =>
        have hdown : Stack.downFrom (f :: below) below.length = f :: below := by
          simp [Stack.downFrom]
        rw [walk?_cons hs howner haround, htake, ih haround (Nat.lt_succ_self _), hdown]
        simp [Stack.ownerOutward?, ← hscan, howner]

/-- Where no enclosing stack is empty, a walk finds the first owner in the order of the search. -/
theorem walk?_eq_find? (houter : ∀ outer s, outer < level → chain[outer]? = some s → s ≠ [])
    (hs : chain[level]? = some s) :
    walk? chain target level position = some (((Address.outward chain ⟨level, position⟩).find?
      (Address.owns chain)).getD target) := by
  induction level generalizing s position with
  | zero =>
    have hfind := Address.find?_downward hs position
    cases howner : s.scan? position with
    | some owner => simp [walk?_of_some hs howner, Address.outward, hfind, howner]
    | none => simp [walk?_zero hs howner, Address.outward, hfind, howner]
  | succ outer ih =>
    have hlt : outer + 1 < chain.length := (List.getElem?_eq_some_iff.mp hs).1
    obtain ⟨around, haround⟩ : ∃ around, chain[outer]? = some around :=
      ⟨_, List.getElem?_eq_getElem (by omega)⟩
    obtain ⟨f, below, rfl⟩ := List.exists_cons_of_ne_nil (houter outer around (by omega) haround)
    have hfurther (i : Nat) (u : Stack) (hi : i < outer) (hu : chain[i]? = some u) : u ≠ [] :=
      houter i u (by omega) hu
    rw [Address.outward_succ haround, List.find?_append, Address.find?_downward hs]
    cases howner : s.scan? position with
    | some owner => rw [walk?_of_some hs howner]; rfl
    | none => rw [walk?_cons hs howner haround, ih hfurther haround]; rfl

/-! ## What the search finds -/

/-- The frame of the chain that a location names, seen from a level. -/
inductive Names (chain : List Stack) : Nat → Location → Address → Prop
  | own {level position : Nat} {s : Stack} (hs : chain[level]? = some s)
      (hposition : position < s.length) : Names chain level (.own position) ⟨level, position⟩
  | enclosing {outer position : Nat} {s : Stack} (hs : chain[outer]? = some s)
      (hposition : position < s.length) :
      Names chain (outer + 1) (.enclosing position) ⟨outer, position⟩

theorem owner?_of_names {l : Location} (h : l.Names chain level target) :
    ∃ s, chain[target.level]? = some s ∧ target.position < s.length ∧
      l.owner? chain level = some ((Stack.ownerOutward?
        (s.downFrom target.position :: (chain.take target.level).reverse)).getD target) := by
  cases h with
  | own hs hposition | enclosing hs hposition =>
    exact ⟨_, hs, hposition, by simp [owner?, target?, hs, hposition]⟩

theorem names_of_owner? {l : Location} {a : Address} (h : l.owner? chain level = some a) :
    ∃ target, l.Names chain level target := by
  obtain ⟨target, htarget, h⟩ := Option.bind_eq_some_iff.mp h
  obtain ⟨s, hs, h⟩ := Option.bind_eq_some_iff.mp h
  have hposition : target.position < s.length := by
    split at h
    · next hlt => exact hlt
    · cases h
  cases l with
  | own position =>
    obtain rfl := Option.some.inj htarget
    exact ⟨_, .own hs hposition⟩
  | enclosing position =>
    cases level with
    | zero => cases htarget
    | succ outer =>
      obtain rfl := Option.some.inj htarget
      exact ⟨_, .enclosing hs hposition⟩

/-- The search has no result exactly if the location names no frame of the chain. If it names one,
a walk from there looks for no stack that is not in the chain and has the same result. Where no
stack further out is empty, this is the first frame that owns a memory: among the named frame,
those below it, and then the frames of each enclosing stack from the active one down. If none
does, it is the named frame. -/
theorem owner?_nearest (chain : List Stack) (level : Nat) (l : Location) :
    (l.owner? chain level = none ↔ ∀ target, ¬ l.Names chain level target) ∧
    ∀ target, l.Names chain level target →
      (∃ a, walk? chain target target.level target.position = some a ∧
        l.owner? chain level = some a) ∧
      ((∀ outer s, outer < target.level → chain[outer]? = some s → s ≠ []) →
        l.owner? chain level =
          some (((Address.outward chain target).find? (Address.owns chain)).getD target)) := by
  refine ⟨⟨fun hnone target h => ?_, fun hnames => ?_⟩, fun target h => ?_⟩
  · obtain ⟨s, -, -, howner⟩ := owner?_of_names h
    rw [hnone] at howner
    cases howner
  · refine Option.eq_none_iff_forall_ne_some.mpr fun a ha => ?_
    obtain ⟨target, h⟩ := names_of_owner? ha
    exact hnames target h
  · obtain ⟨s, hs, hposition, howner⟩ := owner?_of_names h
    have hwalk : walk? chain target target.level target.position = _ := walk?_eq hs hposition
    refine ⟨⟨_, hwalk, howner⟩, fun houter => ?_⟩
    rw [howner, ← hwalk, walk?_eq_find? houter hs]

/-- From a command in a component that owns no memory the search leads to the frame below the
component, and from a place where no frame stands it leads nowhere. -/
theorem owner?_nearest_commands :
    let inner : Stack := [.sharing "note" (.own 0), .sharing "log" (.enclosing 1)]
    let chain : List Stack := [[{ id := "box", children := inner }, .owning "base"], inner]
    (Location.own 0).owner? chain 1 = some ⟨0, 0⟩ ∧ (Location.own 2).owner? chain 1 = none := by
  intro inner chain
  obtain ⟨-, hfound⟩ := owner?_nearest chain 1 (.own 0)
  obtain ⟨hnone, -⟩ := owner?_nearest chain 1 (.own 2)
  have hinner : chain[1]? = some inner := rfl
  have houter (outer : Nat) (s : Stack) (hlt : outer < 1) (hs : chain[outer]? = some s) :
      s ≠ [] := by
    obtain rfl : outer = 0 := by omega
    obtain rfl := Option.some.inj hs
    exact List.cons_ne_nil _ _
  refine ⟨(hfound ⟨1, 0⟩ (.own hinner (by decide))).2 houter, hnone.mpr fun target h => ?_⟩
  cases h with
  | own hs hposition =>
    obtain rfl := Option.some.inj (hinner.symm.trans hs)
    exact absurd hposition (by decide)

end Location
end Colloquy
