import Colloquy.View

/-!
# The shape of a stack

What is running is a tree of ids; what the frames remember is another matter. Edits
of a turn leave the shape of its stack alone, and a change at a level puts another
stack in the place of the one there and leaves the rest of the shape alone.
-/
namespace Colloquy

mutual
/-- A frame without its memory. -/
def Frame.bare : Frame → Frame
  | ⟨id, _, _, children⟩ => { id, children := Stack.bare children }

/-- A stack of frames without their memories. -/
def Stack.bare : List Frame → List Frame
  | [] => []
  | f :: rest => f.bare :: Stack.bare rest
end

namespace Frame

@[simp] theorem bare_id (f : Frame) : f.bare.id = f.id := by
  cases f; rfl

@[simp] theorem bare_children (f : Frame) : f.bare.children = Stack.bare f.children := by
  cases f; rfl

end Frame

namespace Stack

theorem bare_eq_map (s : Stack) : bare s = s.map Frame.bare := by
  induction s with
  | nil => rfl
  | cons f rest ih => simp [bare, ih]

@[simp] theorem bare_nil : bare [] = [] := rfl

@[simp] theorem bare_cons (f : Frame) (rest : Stack) : bare (f :: rest) = f.bare :: bare rest := rfl

@[simp] theorem bare_eq_nil {s : Stack} : bare s = [] ↔ s = [] := by
  rw [bare_eq_map, List.map_eq_nil_iff]

@[simp] theorem length_bare (s : Stack) : (bare s).length = s.length := by
  rw [bare_eq_map, List.length_map]

@[simp] theorem mem_bare {s : Stack} {f : Frame} : f ∈ bare s ↔ ∃ g ∈ s, g.bare = f := by
  rw [bare_eq_map, List.mem_map]

theorem level?_bare (n : Nat) (s : Stack) : level? n (bare s) = (level? n s).map bare := by
  induction n generalizing s with
  | zero => rfl
  | succ n ih => cases s with
    | nil => rfl
    | cons f rest => simp [ih]

theorem bare_modifyLevel {change change' : Stack → Stack}
    (h : ∀ s, bare (change s) = change' (bare s)) (n : Nat) (s : Stack) :
    bare (modifyLevel change n s) = modifyLevel change' n (bare s) := by
  induction n generalizing s with
  | zero => exact h s
  | succ n ih => cases s with
    | nil => rfl
    | cons f rest =>
      simp only [modifyLevel, bare_cons, List.cons.injEq, and_true]
      cases f
      simp [Frame.bare, ih]

theorem bare_modifyAt {f : Frame → Frame} (h : ∀ g : Frame, (f g).bare = g.bare) (s : Stack)
    (position : Nat) : bare (modifyAt s position f) = bare s := by
  have hmodify (l : List Frame) : (l.modify position f).map Frame.bare = l.map Frame.bare := by
    apply List.ext_getElem (by simp)
    intro i hi hi'
    simp only [List.getElem_map, List.getElem_modify]
    split
    · exact h _
    · rfl
  simp only [bare_eq_map, modifyAt, List.map_reverse, hmodify]
  simp

/-! ## Putting a stack at a level -/

/-- The same stack but for the one at a level. -/
def put (n : Nat) (t s : Stack) : Stack := modifyLevel (fun _ => t) n s

@[simp] theorem put_zero (t s : Stack) : put 0 t s = t := rfl

theorem level?_put {n : Nat} {s u : Stack} (h : level? n s = some u) (t : Stack) :
    level? n (put n t s) = some t := by
  rw [put, level?_modifyLevel, h]
  rfl

@[simp] theorem put_put (n : Nat) (t u s : Stack) : put n t (put n u s) = put n t s := by
  unfold put
  induction n generalizing s with
  | zero => rfl
  | succ n ih => cases s with
    | nil => rfl
    | cons f rest => simp [modifyLevel, ih]

theorem put_self {n : Nat} {s t : Stack} (h : level? n s = some t) : put n t s = s := by
  unfold put
  induction n generalizing s with
  | zero => exact (Option.some.inj h).symm
  | succ n ih => cases s with
    | nil => rfl
    | cons f rest =>
      cases f
      simp [modifyLevel, ih h]

theorem put_of_none {n : Nat} {s : Stack} (h : level? n s = none) (t : Stack) :
    put n t s = s := by
  unfold put
  induction n generalizing s with
  | zero => cases h
  | succ n ih => cases s with
    | nil => rfl
    | cons f rest =>
      cases f
      simp [modifyLevel, ih h]

theorem modifyLevel_eq_put {n : Nat} {s t : Stack} (h : level? n s = some t)
    (change : Stack → Stack) : modifyLevel change n s = put n (change t) s := by
  unfold put
  induction n generalizing s with
  | zero => rw [Option.some.inj h]; rfl
  | succ n ih => cases s with
    | nil => rfl
    | cons f rest => simp [modifyLevel, ih h]

/-- The stack one level in is hosted by the active frame. -/
theorem level?_succ {n : Nat} {s rest : Stack} {f : Frame} (h : level? n s = some (f :: rest)) :
    level? (n + 1) s = some f.children := by
  induction n generalizing s with
  | zero => rw [Option.some.inj h]; rfl
  | succ n ih => cases s with
    | nil => cases h
    | cons g below => exact ih h

theorem put_succ {n : Nat} {s rest : Stack} {f : Frame} (h : level? n s = some (f :: rest))
    (t : Stack) : put (n + 1) t s = put n ({ f with children := t } :: rest) s := by
  unfold put
  induction n generalizing s with
  | zero => rw [Option.some.inj h]; rfl
  | succ n ih => cases s with
    | nil => cases h
    | cons g below =>
      have hnext := ih h
      simp only [modifyLevel] at hnext ⊢
      rw [hnext]

end Stack

namespace Turn

/-- What is running. -/
def shape (t : Turn) : Stack := Stack.bare t.stack

variable {t : Turn} {level : Nat}

theorem level?_shape (t : Turn) (level : Nat) :
    Stack.level? level t.shape = (t.stackAt? level).map Stack.bare :=
  Stack.level?_bare level t.stack

theorem level?_shape_of_stackAt? {u : Stack} (hu : t.stackAt? level = some u) :
    Stack.level? level t.shape = some (Stack.bare u) := by
  rw [level?_shape, hu]
  rfl

theorem stackAt?_of_shape {u : Stack} (h : Stack.level? level t.shape = some u) :
    ∃ s, t.stackAt? level = some s ∧ Stack.bare s = u := by
  rw [level?_shape] at h
  exact Option.map_eq_some_iff.mp h

theorem depth_of_shape {u : Stack} (h : Stack.level? level t.shape = some u) :
    t.depth level = u.length := by
  obtain ⟨s, hs, rfl⟩ := stackAt?_of_shape h
  rw [depth_of_stackAt? hs, Stack.length_bare]

theorem active?_of_shape {f : Frame} {rest : Stack}
    (h : Stack.level? level t.shape = some (f :: rest)) :
    ∃ g, t.active? level = some g ∧ g.bare = f := by
  obtain ⟨s, hs, hbare⟩ := stackAt?_of_shape h
  cases s with
  | nil => cases hbare
  | cons g below => exact ⟨g, active?_of_stackAt? hs, (List.cons.inj hbare).1⟩

theorem active?_of_shape_nil (h : Stack.level? level t.shape = some []) :
    t.active? level = none := by
  obtain ⟨s, hs, hbare⟩ := stackAt?_of_shape h
  cases s with
  | nil => exact active?_of_empty hs
  | cons g below => cases hbare

theorem shape_push {u : Stack} (h : Stack.level? level t.shape = some u) (f : Frame) :
    (t.push level f).shape = Stack.put level (f.bare :: u) t.shape := by
  have hpush (s : Stack) : Stack.bare (f :: s) = f.bare :: Stack.bare s := rfl
  rw [shape, push, modifyStack, Stack.bare_modifyLevel hpush level t.stack]
  exact Stack.modifyLevel_eq_put h (f.bare :: ·)

theorem shape_pop {u : Stack} (h : Stack.level? level t.shape = some u) :
    (t.pop level).shape = Stack.put level u.tail t.shape := by
  have htail (s : Stack) : Stack.bare s.tail = (Stack.bare s).tail := by cases s <;> rfl
  rw [shape, pop, modifyStack, Stack.bare_modifyLevel htail level t.stack]
  exact Stack.modifyLevel_eq_put h List.tail

theorem shape_truncate {u : Stack} (h : Stack.level? level t.shape = some u) (depth : Nat) :
    (t.truncate level depth).shape = Stack.put level (Stack.truncate u depth) t.shape := by
  have htruncate (s : Stack) :
      Stack.bare (Stack.truncate s depth) = Stack.truncate (Stack.bare s) depth := by
    simp only [Stack.truncate, Stack.bare_eq_map, List.length_map, List.map_drop]
  rw [shape, truncate, modifyStack,
    @Stack.bare_modifyLevel _ (Stack.truncate · depth) htruncate level t.stack]
  exact Stack.modifyLevel_eq_put h (Stack.truncate · depth)

theorem shape_modifyFrame {f : Frame → Frame} (h : ∀ g : Frame, (f g).bare = g.bare) (t : Turn)
    (a : Address) : (t.modifyFrame a f).shape = t.shape := by
  have hsame (s : Stack) : Stack.bare (Stack.modifyAt s a.position f) = id (Stack.bare s) :=
    Stack.bare_modifyAt h s a.position
  rw [shape, modifyFrame, modifyStack, Stack.bare_modifyLevel hsame]
  have hid (n : Nat) (s : Stack) : Stack.modifyLevel id n s = s := by
    induction n generalizing s with
    | zero => rfl
    | succ n ih => cases s with
      | nil => rfl
      | cons f rest =>
        cases f
        simp [Stack.modifyLevel, ih]
  exact hid a.level t.shape

/-! ## Edits -/

theorem bare_memory (g : Frame) (m : Option Object) :
    Frame.bare { g with memory := m } = g.bare := by
  cases g; rfl

theorem shape_openMemory {a : Address} {m : Object} {t' : Turn}
    (h : t.openMemory level = .ok (a, m, t')) : t'.shape = t.shape := by
  unfold openMemory at h
  split at h
  · cases h
  · split at h
    · cases h
      rfl
    · cases h
      exact shape_modifyFrame (fun g => bare_memory g _) t _

theorem shape_change (t : Turn) (level : Nat) (scope : Scope)
    (f : Object → Except Fault (α × Object)) : (t.change level scope f).2.shape = t.shape := by
  cases scope with
  | settings => rfl
  | user | conversation | turn =>
    simp only [change, change.settle]
    split <;> rfl
  | dialog =>
    simp only [change]
    split
    · rfl
    · next a m t' hopen =>
      have hsame := shape_openMemory hopen
      simp only [change.settle]
      split
      · rw [shape_modifyFrame (fun g => bare_memory g _), hsame]
      · exact hsame

theorem shape_set (t : Turn) (level : Nat) (path : String) (value : Json) :
    (t.set level path value).2.shape = t.shape := by
  unfold set
  split
  · rfl
  · exact shape_change t level _ _

theorem shape_delete (t : Turn) (level : Nat) (path : String) :
    (t.delete level path).2.shape = t.shape := by
  unfold delete
  split
  · rfl
  · split
    · rfl
    · exact shape_change t level _ _

/-- An edit does not start, end or move a dialog. -/
theorem shape_edit (e : Edit α) (level : Nat) (t : Turn) :
    (e.apply level t).2.shape = t.shape := by
  cases e with
  | set path value => exact shape_set t level path value
  | delete path => exact shape_delete t level path
  | openMemory =>
    simp only [Edit.apply]
    split
    · next a m t' hopen => exact shape_openMemory hopen
    · rfl
  | send activity => rfl
  | takeReplies => rfl
  | setGlobalTags tags => rfl

end Turn

/-- What is active at the level of a view has the id that its shape has there. -/
theorem View.active?_of_shape {v : View} {t : Turn} {f : Frame} {rest : Stack} {d : Dialog}
    (h : Stack.level? v.level t.shape = some (f :: rest)) (hd : v.find? f.id = some d) :
    ∃ g, t.active? v.level = some g ∧ g.bare = f ∧ v.find? g.id = some d := by
  obtain ⟨g, hg, hbare⟩ := Turn.active?_of_shape h
  refine ⟨g, hg, hbare, ?_⟩
  rw [← hd, ← hbare, Frame.bare_id]

/-- The dialog of a frame and those of all frames inside it are found where they run,
and have a property there; only containers host frames. -/
inductive Registered (P : View → Dialog → Prop) : View → Frame → Prop
  | idle {v : View} {f : Frame} {d : Dialog} (hd : v.find? f.id = some d) (hp : P v d)
      (hidle : f.children = []) : Registered P v f
  | hosting {v : View} {f : Frame} {d : Dialog} {hosted : DialogSet} (hd : v.find? f.id = some d)
      (hp : P v d) (hset : d.children = some hosted)
      (hframes : ∀ g ∈ f.children, Registered P (v.enter hosted) g) : Registered P v f

theorem Registered.dialog {P : View → Dialog → Prop} {v : View} {f : Frame}
    (h : Registered P v f) : ∃ d, v.find? f.id = some d ∧ P v d := by
  cases h with
  | idle hd hp _ => exact ⟨_, hd, hp⟩
  | hosting hd hp _ _ => exact ⟨_, hd, hp⟩

end Colloquy
