import Colloquy.Dialog.Program
import Colloquy.Proofs.Memory.Placement

/-!
# A stack inside frames

A stack may stand at the root or inside frames that host one another. Seen from its own
level it is the same stack: what is read, edited, pushed and popped there does not depend on
the frames around it, as long as its frames own their memories.
-/
namespace Colloquy

theorem Frame.with_children {f : Frame} {w : Stack} (h : f.children = w) :
    { f with children := w } = f := by
  subst h
  cases f
  rfl

namespace Stack

/-- A stack inside frames, the outermost first. -/
def pack : List Frame → Stack → Stack
  | [], s => s
  | f :: inner, s => [{ f with children := pack inner s }]

theorem pack_concat (F : List Frame) (f : Frame) (s : Stack) :
    pack (F ++ [f]) s = pack F [{ f with children := s }] := by
  induction F with
  | nil => rfl
  | cons g inner ih => simp only [List.cons_append, pack, ih]

theorem level?_pack (F : List Frame) (s : Stack) : level? F.length (pack F s) = some s := by
  induction F with
  | nil => rfl
  | cons f inner ih => exact ih

theorem modifyLevel_pack (change : Stack → Stack) (F : List Frame) (s : Stack) :
    modifyLevel change F.length (pack F s) = pack F (change s) := by
  induction F with
  | nil => rfl
  | cons f inner ih => simp only [List.length_cons, pack, modifyLevel, ih]

/-- All frames own their memories, and their ids have a property. -/
def Held (P : String → Prop) (s : Stack) : Prop := ∀ f ∈ s, f.memory.isSome ∧ P f.id

variable {P : String → Prop} {s : Stack} {f : Frame}

theorem held_nil : Held P [] := List.forall_mem_nil _

theorem held_cons : Held P (f :: s) ↔ (f.memory.isSome ∧ P f.id) ∧ Held P s :=
  List.forall_mem_cons

theorem Held.drop (h : Held P s) (k : Nat) : Held P (s.drop k) :=
  fun f hf => h f (List.mem_of_mem_drop hf)

theorem Held.tail (h : Held P s) : Held P s.tail := fun f hf => h f (List.mem_of_mem_tail hf)

theorem Held.write (h : Held P s) (position : Nat) (m : Object) :
    Held P (s.modifyAt position ({ · with memory := some m })) := by
  induction s with
  | nil => simpa [modifyAt] using h
  | cons f below ih =>
    obtain ⟨hf, hbelow⟩ := held_cons.mp h
    rw [modifyAt_cons]
    split
    · exact held_cons.mpr ⟨⟨rfl, hf.2⟩, hbelow⟩
    · exact held_cons.mpr ⟨hf, ih hbelow⟩

end Stack

namespace Turn

/-- The same turn with another stack running. -/
def running (t : Turn) (u : Stack) : Turn := { t with stack := u }

/-- The same turn with its stack inside frames. -/
def inside (F : List Frame) (t : Turn) : Turn := { t with stack := Stack.pack F t.stack }

variable {t : Turn} {F : List Frame} {level : Nat} {f : Frame} {rest : Stack} {m : Object}

@[simp] theorem stack_running (t : Turn) (u : Stack) : (t.running u).stack = u := rfl

@[simp] theorem running_running (t : Turn) (u w : Stack) : (t.running u).running w = t.running w :=
  rfl

@[simp] theorem inside_nil (t : Turn) : t.inside [] = t := rfl

theorem inside_concat (F : List Frame) (f : Frame) (t : Turn) :
    t.inside (F ++ [f]) = (t.running [{ f with children := t.stack }]).inside F := by
  simp only [inside, running, Stack.pack_concat]

@[simp] theorem stackAt?_inside (F : List Frame) (t : Turn) :
    (t.inside F).stackAt? F.length = some t.stack := Stack.level?_pack F t.stack

@[simp] theorem depth_inside (F : List Frame) (t : Turn) :
    (t.inside F).depth F.length = t.stack.length := by simp [depth]

@[simp] theorem active?_inside (F : List Frame) (t : Turn) :
    (t.inside F).active? F.length = t.stack.head? := by simp [active?, Stack.active?]

theorem modifyStack_inside (F : List Frame) (t : Turn) (change : Stack → Stack) :
    (t.inside F).modifyStack F.length change = (t.running (change t.stack)).inside F := by
  simp only [modifyStack, inside, running, Stack.modifyLevel_pack]

theorem modifyStack_zero (t : Turn) (change : Stack → Stack) :
    t.modifyStack 0 change = t.running (change t.stack) := rfl

/-! ## Memories -/

theorem openMemory_of_owned (hu : t.stackAt? level = some (f :: rest)) (hm : f.memory = some m) :
    t.openMemory level = .ok (⟨level, rest.length⟩, m, t) := by
  have hactive : t.active? level = some f := active?_of_stackAt? hu
  have hdepth : t.depth level = rest.length + 1 := depth_of_stackAt? hu
  have hframe : t.frameAt? ⟨level, rest.length⟩ = some f := by
    simp [frameAt?, hu, Stack.at?_cons]
  simp [openMemory, holder?, hactive, hm, hdepth, hframe]

theorem openMemory_of_idle (hu : t.stackAt? level = some []) :
    t.openMemory level = .error (.invalidArgument .noMemoryHolder) := by
  have hactive : t.active? level = none := active?_of_empty hu
  simp [openMemory, holder?, hactive]

section
variable {P : String → Prop} (h : t.stack.Held P)
include h

theorem memory?_inside (F : List Frame) : (t.inside F).memory? F.length = t.memory? 0 := by
  cases hs : t.stack with
  | nil => simp [memory?, active?, stackAt?, hs, Stack.active?, inside, Stack.level?_pack]
  | cons f rest =>
    rw [hs] at h
    obtain ⟨m, hm⟩ := Option.isSome_iff_exists.mp (Stack.held_cons.mp h).1.1
    have hinside : (t.inside F).active? F.length = some f := by simp [hs]
    have hactive : t.active? 0 = some f := by simp [active?, stackAt?, hs, Stack.active?]
    simp [memory?, hinside, hactive, hm]

theorem get_inside (F : List Frame) (path : String) :
    (t.inside F).get F.length path = t.get 0 path := by
  have hscoped (scope : Scope) : (t.inside F).scoped? F.length scope = t.scoped? 0 scope := by
    cases scope with
    | dialog => exact memory?_inside h F
    | settings | user | conversation | turn => rfl
  simp only [get, hscoped]

/-- Wherever the stack stands, either nothing is active or the same frame holds a memory. -/
theorem openMemory_cases (F : List Frame) :
    (t.openMemory 0 = .error (.invalidArgument .noMemoryHolder) ∧
      (t.inside F).openMemory F.length = .error (.invalidArgument .noMemoryHolder)) ∨
    ∃ position m, t.openMemory 0 = .ok (⟨0, position⟩, m, t) ∧
      (t.inside F).openMemory F.length = .ok (⟨F.length, position⟩, m, t.inside F) := by
  cases hs : t.stack with
  | nil =>
    have hinside : (t.inside F).stackAt? F.length = some [] := by rw [stackAt?_inside, hs]
    have hroot : t.stackAt? 0 = some [] := by rw [stackAt?, hs]; rfl
    exact .inl ⟨openMemory_of_idle hroot, openMemory_of_idle hinside⟩
  | cons f rest =>
    rw [hs] at h
    obtain ⟨m, hm⟩ := Option.isSome_iff_exists.mp (Stack.held_cons.mp h).1.1
    have hinside : (t.inside F).stackAt? F.length = some (f :: rest) := by
      rw [stackAt?_inside, hs]
    have hroot : t.stackAt? 0 = some (f :: rest) := by rw [stackAt?, hs]; rfl
    exact .inr ⟨rest.length, m, openMemory_of_owned hroot hm, openMemory_of_owned hinside hm⟩

theorem change_inside (F : List Frame) (scope : Scope) (g : Object → Except Fault (α × Object)) :
    (t.inside F).change F.length scope g =
      ((t.change 0 scope g).1, (t.change 0 scope g).2.inside F) := by
  cases scope with
  | settings => rfl
  | user | conversation | turn =>
    simp only [change, change.settle]
    split <;> simp_all [inside]
  | dialog =>
    rcases openMemory_cases h F with ⟨hroot, hinside⟩ | ⟨position, m, hroot, hinside⟩
    · simp only [change, hroot, hinside]
    · simp only [change, hroot, hinside, change.settle]
      split
      · simp only [modifyFrame, modifyStack_inside, modifyStack_zero]
      · rfl

theorem change_held (scope : Scope) (g : Object → Except Fault (α × Object)) :
    (t.change 0 scope g).2.stack.Held P ∧
      (t.change 0 scope g).2.stack.length = t.stack.length := by
  cases scope with
  | settings => exact ⟨h, rfl⟩
  | user | conversation | turn =>
    simp only [change, change.settle]
    split <;> exact ⟨h, rfl⟩
  | dialog =>
    rcases openMemory_cases h [] with ⟨hroot, -⟩ | ⟨position, m, hroot, -⟩
    · simpa only [change, hroot, and_true] using h
    · simp only [change, hroot, change.settle]
      split
      · exact ⟨h.write position _, Stack.length_modifyAt _ _ _⟩
      · exact ⟨h, rfl⟩

theorem set_inside (F : List Frame) (path : String) (value : Json) :
    (t.inside F).set F.length path value =
      ((t.set 0 path value).1, (t.set 0 path value).2.inside F) := by
  unfold set
  split
  · rfl
  · exact change_inside h F _ _

theorem edit_inside (F : List Frame) (e : Edit α) :
    e.apply F.length (t.inside F) = ((e.apply 0 t).1, (e.apply 0 t).2.inside F) := by
  cases e with
  | set path value => exact set_inside h F path value
  | delete path =>
    simp only [Edit.apply, delete]
    split
    · rfl
    · have hactive : (t.inside F).active? F.length = t.active? 0 := by rw [active?_inside]; rfl
      rw [hactive]
      split
      · rfl
      · exact change_inside h F _ _
  | openMemory =>
    rcases openMemory_cases h F with ⟨hroot, hinside⟩ | ⟨position, m, hroot, hinside⟩
    · simp only [Edit.apply, hroot, hinside]
    · simp only [Edit.apply, hroot, hinside]
  | send activity => rfl
  | takeReplies => rfl
  | setGlobalTags tags => rfl

theorem edit_held (e : Edit α) :
    (e.apply 0 t).2.stack.Held P ∧ (e.apply 0 t).2.stack.length = t.stack.length := by
  cases e with
  | set path value =>
    simp only [Edit.apply, set]
    split
    · exact ⟨h, rfl⟩
    · exact change_held h _ _
  | delete path =>
    simp only [Edit.apply, delete]
    split
    · exact ⟨h, rfl⟩
    · split
      · exact ⟨h, rfl⟩
      · exact change_held h _ _
  | openMemory =>
    rcases openMemory_cases h [] with ⟨hroot, -⟩ | ⟨position, m, hroot, -⟩
    · simpa only [Edit.apply, hroot, and_true] using h
    · simpa only [Edit.apply, hroot, and_true] using h
  | send activity => exact ⟨h, rfl⟩
  | takeReplies => exact ⟨h, rfl⟩
  | setGlobalTags tags => exact ⟨h, rfl⟩

end

end Turn
end Colloquy
