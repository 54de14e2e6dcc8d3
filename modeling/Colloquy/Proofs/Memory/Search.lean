import Colloquy.Proofs.Memory.Placement

/-!
# The search for a shared memory

The search goes from the frame that a location names to those below it and then through
the stacks around, each from its active frame down. It ends at a frame that owns a memory
when no stack around is empty and the root stack has such a frame.
-/
namespace Colloquy

namespace Stack

theorem owner?_some {s : Stack} {position : Nat} (h : owner? s = some position) :
    ∃ f, s.at? position = some f ∧ f.memory.isSome := by
  induction s with
  | nil => cases h
  | cons f below ih =>
    rw [owner?] at h
    split at h
    · next hmemory =>
      cases h
      exact ⟨f, by rw [at?_cons, if_pos rfl], hmemory⟩
    · obtain ⟨g, hg, hmemory⟩ := ih h
      have hlt : position < below.length := by
        have hsome := List.getElem?_eq_some_iff.mp hg
        simpa using hsome.1
      exact ⟨g, by rw [at?_cons, if_neg (by omega), hg], hmemory⟩

theorem owner?_isSome {s : Stack} {f : Frame} (hf : f ∈ s) (hmemory : f.memory.isSome) :
    (owner? s).isSome := by
  induction s with
  | nil => cases hf
  | cons g below ih =>
    rw [owner?]
    split
    · rfl
    · next hnone =>
      rcases List.mem_cons.mp hf with rfl | hbelow
      · exact absurd hmemory hnone
      · exact ih hbelow

/-- What is found among stacks listed from the inside out owns a memory. -/
theorem ownerOutward?_some {around : List Stack} {a : Address}
    (h : ownerOutward? around = some a) :
    ∃ u f, around.reverse[a.level]? = some u ∧ u.at? a.position = some f ∧ f.memory.isSome := by
  fun_induction ownerOutward? around with
  | case1 => cases h
  | case2 s outer position hposition =>
    cases h
    obtain ⟨f, hf, hmemory⟩ := owner?_some hposition
    exact ⟨s, f, by simp, hf, hmemory⟩
  | case3 s hnone => cases h
  | case4 s rest hnone => cases h
  | case5 s outer hnone hne hne' ih =>
    obtain ⟨u, f, hu, hf, hmemory⟩ := ih h
    have hlt := (List.getElem?_eq_some_iff.mp hu).1
    exact ⟨u, f, by rw [List.reverse_cons, List.getElem?_append_left hlt, hu], hf, hmemory⟩

/-- Through stacks that are not empty the search reaches the last one. -/
theorem ownerOutward?_isSome {around : List Stack} (houter : ∀ u ∈ around.tail, u ≠ [])
    {root : Stack} {f : Frame} (hroot : around.getLast? = some root) (hf : f ∈ root)
    (hmemory : f.memory.isSome) : (ownerOutward? around).isSome := by
  fun_induction ownerOutward? around with
  | case1 => cases hroot
  | case2 s outer position hposition => rfl
  | case3 s hnone =>
    obtain rfl : s = root := by simpa using hroot
    have hsome := owner?_isSome hf hmemory
    rw [hnone] at hsome
    cases hsome
  | case4 s rest hnone => exact absurd rfl (houter [] (by simp))
  | case5 s outer hnone hne hne' ih =>
    refine ih (fun u hu => houter u (List.mem_of_mem_tail hu)) ?_
    cases outer with
    | nil => exact absurd rfl hne
    | cons next rest => simpa using hroot

/-! ## Chains -/

theorem chain_getElem? {n i : Nat} {s u : Stack} (h : level? n s = some u) (hi : i ≤ n) :
    (chain n s)[i]? = level? i s := by
  induction n generalizing s i with
  | zero =>
    obtain rfl : i = 0 := by omega
    rfl
  | succ n ih =>
    cases s with
    | nil => cases h
    | cons f rest =>
      cases i with
      | zero => rfl
      | succ i =>
        have hinner : level? n f.children = some u := h
        exact ih hinner (by omega)

/-- Around a stack there are only stacks that are not empty. -/
theorem level?_outside {n i : Nat} {s u : Stack} (h : level? n s = some u) (hi : i < n) :
    ∃ f rest, level? i s = some (f :: rest) := by
  induction n generalizing s i with
  | zero => omega
  | succ n ih =>
    cases s with
    | nil => cases h
    | cons f rest =>
      cases i with
      | zero => exact ⟨f, rest, rfl⟩
      | succ i => exact ih (s := f.children) h (by omega)

theorem chain_eq_cons (n : Nat) (s : Stack) : chain n s = s :: (chain n s).tail := by
  cases n with
  | zero => rfl
  | succ n => cases s <;> rfl

theorem getLast?_downFrom {s : Stack} {position : Nat} (h : position < s.length) :
    (s.downFrom position).getLast? = s.getLast? := by
  rw [downFrom, List.getLast?_drop, if_neg (by omega)]

/-- The frame at the bottom of a placed root stack owns a memory. -/
theorem Placed.bottom {s : Stack} (h : Placed none s) {f : Frame} (hf : s.getLast? = some f) :
    f.memory.isSome := by
  induction s with
  | nil => cases hf
  | cons g below ih =>
    obtain ⟨hg, hbelow⟩ := placed_cons.mp h
    cases below with
    | nil =>
      obtain rfl : g = f := by simpa using hf
      rcases (Frame.placed_iff.mp hg).1 with ⟨hmemory, -⟩ | ⟨-, hshared, heq⟩
      · exact hmemory
      · rw [heq] at hshared
        cases hshared
    | cons g' rest => exact ih hbelow (by simpa using hf)

end Stack

namespace Turn
variable {t : Turn} {level : Nat}

theorem chain_getElem? {i : Nat} {u : Stack} (h : t.stackAt? level = some u) (hi : i ≤ level) :
    (t.chain level)[i]? = t.stackAt? i := Stack.chain_getElem? h hi

theorem chain_outside {i : Nat} {u w : Stack} (h : t.stackAt? level = some u) (hi : i < level)
    (hw : (t.chain level)[i]? = some w) : w ≠ [] := by
  obtain ⟨f, rest, hlevel⟩ := Stack.level?_outside h hi
  have hchain : (t.chain level)[i]? = some (f :: rest) :=
    (chain_getElem? h (by omega)).trans hlevel
  rw [hchain] at hw
  obtain rfl := Option.some.inj hw
  exact List.cons_ne_nil f rest

/-- Outward from any frame there is the frame at the bottom of the root stack. -/
theorem exists_root_owner (level : Nat) (h : Stack.Placed none t.stack) {inner position : Nat}
    {w : Stack} (hw : t.stackAt? inner = some w) (hposition : position < w.length) :
    ∃ root f, (w.downFrom position :: ((t.chain level).take inner).reverse).getLast? = some root ∧
      f ∈ root ∧ f.memory.isSome := by
  cases inner with
  | zero =>
    obtain rfl : t.stack = w := Option.some.inj hw
    have hne : t.stack ≠ [] :=
      List.ne_nil_of_length_pos (Nat.lt_of_le_of_lt (Nat.zero_le _) hposition)
    have hlast := List.getLast?_eq_some_getLast hne
    have hsame := (Stack.getLast?_downFrom hposition).trans hlast
    exact ⟨t.stack.downFrom position, t.stack.getLast hne, rfl, List.mem_of_getLast? hsame,
      h.bottom hlast⟩
  | succ outer =>
    obtain ⟨f, rest, hroot⟩ := Stack.level?_outside (i := 0) hw (by omega)
    have hroot' : t.stack = f :: rest := Option.some.inj hroot
    have hlast := List.getLast?_eq_some_getLast (List.cons_ne_nil f rest)
    refine ⟨f :: rest, _, ?_, List.mem_of_getLast? hlast, h.bottom (hroot'.symm ▸ hlast)⟩
    rw [chain, Stack.chain_eq_cons, hroot', List.take_succ_cons, List.reverse_cons,
      ← List.cons_append, List.getLast?_concat]

/-- The search outward from a frame of a stack ends at a memory. -/
theorem ownerOutward?_of_placed (h : Stack.Placed none t.stack) {u w : Stack}
    (hu : t.stackAt? level = some u) {inner position : Nat} (hle : inner ≤ level)
    (hw : t.stackAt? inner = some w) (hposition : position < w.length) :
    (Stack.ownerOutward?
      (w.downFrom position :: ((t.chain level).take inner).reverse)).isSome := by
  obtain ⟨root, f, hroot, hf, hmemory⟩ := exists_root_owner level h hw hposition
  refine Stack.ownerOutward?_isSome (fun x hx => ?_) hroot hf hmemory
  obtain ⟨i, hi, hget⟩ := List.mem_take_iff_getElem.mp (List.mem_reverse.mp hx)
  exact chain_outside hu (i := i) (by omega) (by rw [List.getElem?_eq_getElem (by omega), hget])

/-- What the search outward from a frame finds is a frame of the turn. -/
theorem frameAt?_of_ownerOutward? {u w : Stack} (hu : t.stackAt? level = some u)
    {inner position : Nat} (hle : inner ≤ level) (hw : t.stackAt? inner = some w) {a : Address}
    (ha : Stack.ownerOutward?
      (w.downFrom position :: ((t.chain level).take inner).reverse) = some a) :
    ∃ g, t.frameAt? a = some g ∧ g.memory.isSome := by
  obtain ⟨x, g, hx, hg, hmemory⟩ := Stack.ownerOutward?_some ha
  refine ⟨g, ?_, hmemory⟩
  have hchain : (t.chain level)[inner]? = some w := (chain_getElem? hu hle).trans hw
  have hlength : ((t.chain level).take inner).length = inner := by
    have hlt := (List.getElem?_eq_some_iff.mp hchain).1
    simp only [List.length_take]
    omega
  rw [List.reverse_cons, List.reverse_reverse] at hx
  by_cases hinside : a.level < inner
  · rw [List.getElem?_append_left (by omega), List.getElem?_take_of_lt hinside,
      chain_getElem? hu (by omega)] at hx
    simp [frameAt?, hx, hg]
  · have hlt := (List.getElem?_eq_some_iff.mp hx).1
    simp only [List.length_append, hlength, List.length_singleton] at hlt
    have hlevel : a.level = inner := by omega
    rw [List.getElem?_append_right (by omega), hlength, hlevel, Nat.sub_self] at hx
    obtain rfl : w.downFrom position = x := by simpa using hx
    have hshort : a.position < (w.downFrom position).length := by
      simpa only [List.length_reverse] using (List.getElem?_eq_some_iff.mp hg).1
    rw [Stack.downFrom, Stack.at?_drop hshort] at hg
    simp [frameAt?, hlevel, hw, hg]

/-- A location that names a frame leads to one that owns a memory. -/
theorem owner?_of_target (h : Stack.Placed none t.stack) {u w : Stack}
    (hu : t.stackAt? level = some u) {l : Location} {target : Address}
    (htarget : l.target? level = some target) (hle : target.level ≤ level)
    (hw : t.stackAt? target.level = some w) (hposition : target.position < w.length) :
    ∃ a g, l.owner? (t.chain level) level = some a ∧ t.frameAt? a = some g ∧
      g.memory.isSome := by
  have hfound := ownerOutward?_of_placed h hu hle hw hposition
  obtain ⟨a, ha⟩ := Option.isSome_iff_exists.mp hfound
  have hchain : (t.chain level)[target.level]? = some w := (chain_getElem? hu hle).trans hw
  have howner : l.owner? (t.chain level) level = some a := by
    simp [Location.owner?, htarget, hchain, hposition, ha]
  obtain ⟨g, hg, hmemory⟩ := frameAt?_of_ownerOutward? hu hle hw ha
  exact ⟨a, g, howner, hg, hmemory⟩

end Turn
end Colloquy
