import Colloquy.Proofs.Engine.Beginning
import Colloquy.Proofs.Memory.Agreement
import Colloquy.Proofs.Nesting.Packing
import Colloquy.Proofs.Shape

/-!
# Seeding a frame

What is written into a new frame before it begins goes into that frame's memory and nowhere
else: the targets of input bindings are checked, options have a place of their own, and a
frame that owns a memory is the one that the dialog scope is about.
-/
namespace Colloquy

theorem Path.scope_of_explicit {p : Path} (h : p.isExplicitDialogProperty) :
    p.scope = .dialog := by
  simp only [isExplicitDialogProperty, Bool.and_eq_true] at h
  exact eq_of_beq h.1.1

theorem Frame.with_memory (f : Frame) {m : Object} (h : f.memory = some m) :
    { f with memory := some m } = f := by
  cases f
  cases h
  rfl

namespace Turn
variable {t : Turn} {level : Nat} {f : Frame} {u rest : Stack}

/-! ## Another stack at a level -/

/-- The same turn but for the stack at a level. -/
def put (t : Turn) (level : Nat) (u : Stack) : Turn :=
  { t with stack := Stack.put level u t.stack }

@[simp] theorem put_stack (t : Turn) (level : Nat) (u : Stack) :
    (t.put level u).stack = Stack.put level u t.stack := rfl

@[simp] theorem put_put (t : Turn) (level : Nat) (u w : Stack) :
    (t.put level u).put level w = t.put level w := by simp [put]

theorem put_self (hu : t.stackAt? level = some u) : t.put level u = t := by
  rw [put, Stack.put_self hu]

theorem stackAt?_put (hu : t.stackAt? level = some u) (w : Stack) :
    (t.put level w).stackAt? level = some w := Stack.level?_put hu w

theorem modifyStack_eq_put (hu : t.stackAt? level = some u) (change : Stack → Stack) :
    t.modifyStack level change = t.put level (change u) := by
  rw [modifyStack, Stack.modifyLevel_eq_put hu, put]

/-! ## The memory of the active frame -/

/-- A write to the active frame's memory is a change of that frame. -/
theorem withMemory_active (hu : t.stackAt? level = some (f :: rest)) (m : Object) :
    t.withMemory ⟨level, rest.length⟩ m = t.put level ({ f with memory := some m } :: rest) := by
  rw [withMemory, modifyFrame, modifyStack_eq_put hu, Stack.modifyAt_cons, if_pos rfl]

/-- Whatever comes of a change of the dialog scope, nothing but the memory of the active
frame changes, if that frame owns one. -/
theorem change_owned (hu : t.stackAt? level = some (f :: rest)) (hm : f.memory.isSome)
    (update : Object → Except Fault (α × Object)) :
    ∃ m outcome, t.change level .dialog update =
      (outcome, t.put level ({ f with memory := some m } :: rest)) := by
  obtain ⟨m, hm⟩ := Option.isSome_iff_exists.mp hm
  simp only [change, openMemory_of_owned hu hm]
  cases update m with
  | ok r => exact ⟨r.2, .ok r.1, congrArg (Prod.mk _) (withMemory_active hu r.2)⟩
  | error e =>
    refine ⟨m, .error e, ?_⟩
    rw [f.with_memory hm, put_self hu]
    rfl

theorem set_owned (hu : t.stackAt? level = some (f :: rest)) (hm : f.memory.isSome) {path : String}
    {p : Path} (hp : Path.parse path = .ok p) (hscope : p.scope = .dialog) (value : Json) :
    ∃ m outcome, t.set level path value =
      (outcome, t.put level ({ f with memory := some m } :: rest)) := by
  simp only [set, hp, hscope]
  exact change_owned hu hm fun o => (p.write value o).map ((), ·)

/-- Every path leads into the dialog scope. -/
def Scoped (seeds : List (String × Json)) : Prop :=
  ∀ entry ∈ seeds, ∃ p, Path.parse entry.1 = .ok p ∧ p.scope = .dialog

/-- Values written to the dialog scope one after another are written into the active frame. -/
theorem seed_owned {seeds : List (String × Json)} (hseeds : Scoped seeds)
    (hu : t.stackAt? level = some (f :: rest)) (hm : f.memory.isSome) :
    ∃ m outcome, t.seed level seeds =
      (outcome, t.put level ({ f with memory := some m } :: rest)) := by
  induction seeds generalizing t f with
  | nil =>
    obtain ⟨m, hm⟩ := Option.isSome_iff_exists.mp hm
    refine ⟨m, .ok (), ?_⟩
    rw [f.with_memory hm, put_self hu]
    rfl
  | cons entry more ih =>
    obtain ⟨path, value⟩ := entry
    obtain ⟨p, hp, hscope⟩ := hseeds _ List.mem_cons_self
    obtain ⟨m, outcome, hset⟩ := set_owned hu hm hp hscope value
    cases outcome with
    | error e => exact ⟨m, .error e, by simp only [seed, hset]⟩
    | ok =>
      have hscoped : Scoped more := fun entry he => hseeds entry (List.mem_cons_of_mem _ he)
      obtain ⟨m', outcome, hmore⟩ := ih hscoped
        (stackAt?_put hu ({ f with memory := some m } :: rest)) rfl
      refine ⟨m', outcome, ?_⟩
      simp only [seed, hset, hmore, put_put]

end Turn

namespace Engine
variable {v : View} {d : Dialog} {t : Turn} {id : String} {inputs : List (String × Json)}

/-- What is read is for the targets of bindings, which lead into the dialog scope. -/
theorem readInputs_targets {level : Nat} {bindings : List InputBinding}
    (h : readInputs t level bindings = .ok inputs) :
    ∀ entry ∈ inputs, ∃ b ∈ bindings, entry.1 = b.target ∧
      ∃ p, Path.parse b.target = .ok p ∧ p.scope = .dialog := by
  induction bindings generalizing inputs with
  | nil =>
    obtain rfl := Except.ok.inj h
    exact List.forall_mem_nil _
  | cons b rest ih =>
    simp only [readInputs, bind, Except.bind] at h
    cases hp : Path.parse b.target with
    | error e => simp [hp] at h
    | ok p =>
      cases hproperty : p.isExplicitDialogProperty with
      | false => simp [hp, hproperty, throw, throwThe, MonadExceptOf.throw] at h
      | true =>
        simp only [hp, hproperty, Bool.not_true, Bool.false_eq_true, if_false, pure,
          Except.pure] at h
        cases hvalue : t.get level b.source with
        | error e => simp [hvalue] at h
        | ok value =>
          cases hrest : readInputs t level rest with
          | error e => simp [hvalue, hrest] at h
          | ok more =>
            simp only [hvalue, hrest] at h
            have hmore : ∀ entry ∈ more, ∃ b' ∈ b :: rest, entry.1 = b'.target ∧
                ∃ p, Path.parse b'.target = .ok p ∧ p.scope = .dialog := by
              intro entry hentry
              obtain ⟨b', hb', htarget⟩ := ih hrest entry hentry
              exact ⟨b', List.mem_cons_of_mem b hb', htarget⟩
            cases value with
            | none =>
              obtain rfl := Except.ok.inj h
              exact hmore
            | some value =>
              obtain rfl := Except.ok.inj h
              exact List.forall_mem_cons.mpr
                ⟨⟨b, List.mem_cons_self, rfl, p, hp, Path.scope_of_explicit hproperty⟩, hmore⟩

theorem readInputs_scoped {level : Nat} {bindings : List InputBinding}
    (h : readInputs t level bindings = .ok inputs) : Turn.Scoped inputs := by
  intro entry hentry
  obtain ⟨b, -, htarget, p, hp, hscope⟩ := readInputs_targets h entry hentry
  exact ⟨p, by rw [htarget, hp], hscope⟩

theorem seeds_scoped {asked : Turn} (h : Prepared v asked id d inputs) (options : Option Json) :
    Turn.Scoped (seeds d inputs options) := by
  intro entry hentry
  rcases List.mem_append.mp hentry with hinput | hoptions
  · exact readInputs_scoped h.bound entry hinput
  · have hparse : ∃ p, Path.parse (optionsPath d) = .ok p ∧ p.scope = .dialog := by
      unfold optionsPath
      split
      · exact ⟨⟨"dialog.step.options", .dialog, ["step", "options"]⟩,
          Path.parse_eq (by decide +kernel), rfl⟩
      · exact ⟨⟨"dialog.options", .dialog, ["options"]⟩, Path.parse_eq (by decide +kernel), rfl⟩
    cases options with
    | none => cases hoptions
    | some value =>
      rw [List.mem_singleton.mp hoptions]
      exact hparse

theorem newFrame_owning (hkind : d.kind ≠ .command) (id : String) (t : Turn) (level : Nat) :
    newFrame d id t level = .owning id := by simp [newFrame, hkind]

/-- A new frame with a memory of its own and all that is written into it: a frame with its id
over the stack that was there, with a memory of its own. -/
theorem seed_pushed {asked : Turn} (h : Prepared v asked id d inputs)
    (hframe : newFrame d id t v.level = .owning id) {u : Stack}
    (hu : t.stackAt? v.level = some u) (options : Option Json) :
    ∃ m outcome,
      (t.push v.level (newFrame d id t v.level)).seed v.level (seeds d inputs options) =
        (outcome, t.put v.level ({ id, memory := some m } :: u)) := by
  have hpush : t.push v.level (.owning id) = t.put v.level (.owning id :: u) :=
    Turn.modifyStack_eq_put hu _
  obtain ⟨m, outcome, hseed⟩ := Turn.seed_owned (seeds_scoped h options)
    (Turn.stackAt?_put hu (.owning id :: u)) rfl
  refine ⟨m, outcome, ?_⟩
  rw [hframe, hpush, hseed, Turn.put_put]
  rfl

end Engine
end Colloquy
