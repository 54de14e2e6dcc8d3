import Colloquy.Proofs.Memory.Sharing

/-!
# Writing one memory

A write puts another memory into the frame at one address. All frames keep their ids, the
locations they share and the stacks they host, and all other frames their memories. The
search for a shared memory asks of a frame only whether it owns one, so it takes the same
way through two trees whose frames own memories in the same places.
-/
namespace Colloquy

mutual
/-- A frame with its memory and those of all frames inside it changed. -/
def Frame.mapMemory (g : Option Object → Option Object) : Frame → Frame
  | ⟨id, memory, shared, children⟩ => ⟨id, g memory, shared, Stack.mapMemory g children⟩

/-- A stack with the memories of all its frames changed, at every depth. -/
def Stack.mapMemory (g : Option Object → Option Object) : List Frame → List Frame
  | [] => []
  | f :: rest => f.mapMemory g :: Stack.mapMemory g rest
end

namespace Frame
variable (g : Option Object → Option Object) (f : Frame)

theorem mapMemory_eq : f.mapMemory g =
    ⟨f.id, g f.memory, f.shared, Stack.mapMemory g f.children⟩ := by
  cases f
  rw [mapMemory]

@[simp] theorem mapMemory_memory : (f.mapMemory g).memory = g f.memory := by rw [mapMemory_eq]

@[simp] theorem mapMemory_shared : (f.mapMemory g).shared = f.shared := by rw [mapMemory_eq]

@[simp] theorem mapMemory_children :
    (f.mapMemory g).children = Stack.mapMemory g f.children := by rw [mapMemory_eq]

end Frame

namespace Stack
variable {g : Option Object → Option Object} {s : Stack}

@[simp] theorem mapMemory_nil : mapMemory g [] = [] := by rw [mapMemory]

@[simp] theorem mapMemory_cons (f : Frame) (rest : Stack) :
    mapMemory g (f :: rest) = f.mapMemory g :: mapMemory g rest := by rw [mapMemory]

theorem mapMemory_eq_map (g : Option Object → Option Object) (s : Stack) :
    mapMemory g s = s.map (Frame.mapMemory g) := by
  induction s with
  | nil => simp
  | cons f rest ih => simp [ih]

theorem level?_mapMemory (n : Nat) (s : Stack) :
    level? n (mapMemory g s) = (level? n s).map (mapMemory g) := by
  induction n generalizing s with
  | zero => rfl
  | succ n ih =>
    cases s with
    | nil => simp
    | cons f rest => simpa using ih f.children

theorem chain_mapMemory (n : Nat) (s : Stack) :
    chain n (mapMemory g s) = (chain n s).map (mapMemory g) := by
  induction n generalizing s with
  | zero => rfl
  | succ n ih =>
    cases s with
    | nil => simp [chain]
    | cons f rest => simp [chain, ih]

/-! ## What a write keeps -/

theorem mapMemory_modifyAt {position : Nat} {memory : Option Object}
    (h : ∀ f, s.at? position = some f → g memory = g f.memory) :
    mapMemory g (s.modifyAt position ({ · with memory })) = mapMemory g s := by
  induction s with
  | nil => simp [modifyAt]
  | cons f below ih =>
    rw [modifyAt_cons]
    split
    · next heq =>
      have hsame : g memory = g f.memory := h f (by rw [at?_cons, if_pos heq])
      simp [Frame.mapMemory_eq, hsame]
    · next hne =>
      have hbelow := ih fun f' hf' => h f' (by rw [at?_cons, if_neg hne, hf'])
      rw [mapMemory_cons, mapMemory_cons, hbelow]

theorem mapMemory_modifyLevel {change : Stack → Stack} {n : Nat}
    (h : ∀ u, level? n s = some u → mapMemory g (change u) = mapMemory g u) :
    mapMemory g (modifyLevel change n s) = mapMemory g s := by
  induction n generalizing s with
  | zero => exact h s rfl
  | succ n ih =>
    cases s with
    | nil => rfl
    | cons f rest =>
      have hchildren : mapMemory g (modifyLevel change n f.children) = mapMemory g f.children :=
        ih h
      simp [modifyLevel, Frame.mapMemory_eq, hchildren]

theorem at?_modifyAt (s : Stack) (position q : Nat) (change : Frame → Frame) :
    (s.modifyAt position change).at? q =
      if q = position then (s.at? q).map change else s.at? q := by
  induction s with
  | nil => simp [modifyAt, at?]
  | cons f below ih =>
    rw [modifyAt_cons]
    by_cases hposition : position = below.length
    · rw [if_pos hposition, at?_cons, at?_cons]
      by_cases hq : q = below.length
      · simp [hq, hposition]
      · rw [if_neg hq, if_neg hq, if_neg (hposition ▸ hq)]
    · rw [if_neg hposition, at?_cons, at?_cons, length_modifyAt, ih]
      by_cases hq : q = below.length
      · rw [if_pos hq, if_pos hq, if_neg (by omega)]
      · rw [if_neg hq, if_neg hq]

/-- The stacks inside a stack stay when one of its frames gets another memory. -/
theorem level?_succ_modifyAt (n position : Nat) (memory : Option Object) (s : Stack) :
    level? (n + 1) (s.modifyAt position ({ · with memory })) = level? (n + 1) s := by
  cases s with
  | nil => simp [modifyAt]
  | cons f below =>
    rw [modifyAt_cons]
    split <;> rfl

/-- A write is seen at its own address only. -/
theorem memory_modifyLevel {n k position q : Nat} (memory : Option Object)
    (hne : k ≠ n ∨ q ≠ position) (s : Stack) :
    ((level? k (modifyLevel (modifyAt · position ({ · with memory })) n s)).bind (at? · q)).map
        Frame.memory =
      ((level? k s).bind (at? · q)).map Frame.memory := by
  induction n generalizing s k with
  | zero =>
    cases k with
    | zero =>
      have hq : q ≠ position := by simpa using hne
      simp [at?_modifyAt, hq]
    | succ k => rw [modifyLevel_zero, level?_succ_modifyAt]
  | succ n ih =>
    cases s with
    | nil => rfl
    | cons f rest =>
      cases k with
      | zero =>
        simp only [modifyLevel, level?_zero, Option.bind_some, at?_cons]
        split <;> rfl
      | succ k => exact ih (by simpa using hne) f.children

/-! ## The search -/

section Outline
variable (hg : ∀ memory, (g memory).isSome = memory.isSome)
include hg

theorem owner?_mapMemory (s : Stack) : owner? (mapMemory g s) = owner? s := by
  induction s with
  | nil => simp
  | cons f below ih =>
    have hlength : (mapMemory g below).length = below.length := by simp [mapMemory_eq_map]
    simp [owner?, hg, ih, hlength]

theorem ownerOutward?_mapMemory (around : List Stack) :
    ownerOutward? (around.map (mapMemory g)) = ownerOutward? around := by
  fun_induction ownerOutward? around with
  | case1 => rfl
  | case2 s outer position hposition =>
    simp [ownerOutward?, owner?_mapMemory hg, hposition]
  | case3 s hnone => simp [ownerOutward?, owner?_mapMemory hg, hnone]
  | case4 s hnone rest => simp [ownerOutward?, owner?_mapMemory hg, hnone]
  | case5 s outer hnone hne hne' ih =>
    cases outer with
    | nil => exact absurd rfl hne
    | cons u rest =>
      cases u with
      | nil => exact absurd rfl (hne' rest)
      | cons f below =>
        rw [← ih]
        simp [ownerOutward?, owner?_mapMemory hg, hnone]

end Outline

/-- A frame that owns a memory is the first owner from itself down. -/
theorem owner?_downFrom {position : Nat} {f : Frame} (hf : s.at? position = some f)
    (hmemory : f.memory.isSome) : owner? (s.downFrom position) = some position := by
  induction s with
  | nil => cases hf
  | cons f' below ih =>
    rw [at?_cons] at hf
    split at hf
    · next heq =>
      obtain rfl := Option.some.inj hf
      simp [downFrom, heq, owner?, hmemory]
    · next hne =>
      have hlt : position < below.length := by
        simpa using (List.getElem?_eq_some_iff.mp hf).1
      have hdown : downFrom (f' :: below) position = downFrom below position := by
        have hsucc : (f' :: below).length - (position + 1) =
            below.length - (position + 1) + 1 := by
          simp only [List.length_cons]
          omega
        rw [downFrom, downFrom, hsucc, List.drop_succ_cons]
      rw [hdown]
      exact ih hf

end Stack

namespace Location

theorem owner?_mapMemory {g : Option Object → Option Object}
    (hg : ∀ memory, (g memory).isSome = memory.isSome) (chain : List Stack) (level : Nat)
    (l : Location) :
    l.owner? (chain.map (Stack.mapMemory g)) level = l.owner? chain level := by
  simp only [owner?]
  cases l.target? level with
  | none => rfl
  | some target =>
    simp only [Option.bind_eq_bind, Option.bind_some, List.getElem?_map]
    cases chain[target.level]? with
    | none => rfl
    | some s =>
      have hlength : (Stack.mapMemory g s).length = s.length := by
        simp [Stack.mapMemory_eq_map]
      have hdown : Stack.downFrom (Stack.mapMemory g s) target.position =
          Stack.mapMemory g (s.downFrom target.position) := by
        simp [Stack.downFrom, Stack.mapMemory_eq_map]
      have hsearch := Stack.ownerOutward?_mapMemory hg
        (s.downFrom target.position :: (chain.take target.level).reverse)
      rw [List.map_cons, List.map_reverse, List.map_take] at hsearch
      simp only [Option.map_some, Option.bind_some, hlength, hdown, hsearch]

/-- A location that names a frame with a memory leads to that frame. -/
theorem owner?_of_memory {chain : List Stack} {level : Nat} {l : Location} {target : Address}
    {s : Stack} {f : Frame} (htarget : l.target? level = some target)
    (hs : chain[target.level]? = some s) (hf : s.at? target.position = some f)
    (hmemory : f.memory.isSome) : l.owner? chain level = some target := by
  have hlevel : target.level < chain.length := (List.getElem?_eq_some_iff.mp hs).1
  have hposition : target.position < s.length := by
    simpa using (List.getElem?_eq_some_iff.mp hf).1
  have hlength : (chain.take target.level).reverse.length = target.level := by
    rw [List.length_reverse, List.length_take]
    omega
  simp [owner?, htarget, hs, hposition, Stack.ownerOutward?,
    Stack.owner?_downFrom hf hmemory, Nat.min_eq_left (Nat.le_of_lt hlevel)]

end Location
end Colloquy
