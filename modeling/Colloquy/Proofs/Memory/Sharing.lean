import Colloquy.Dialog.Component
import Colloquy.Proofs.Engine.Invariant
import Colloquy.Proofs.Memory.Search
import Colloquy.Proofs.Persistence

/-!
# Shared memories are found

Wherever a run has come to, over any number of turns, frames are linked to the memories
they share: the invariant of placed frames holds of the empty stack, every edit, push, pop
and truncation keeps it, and a snapshot carries it over. So every active frame has a memory
without one being opened for it.
-/
namespace Colloquy

namespace Stack
variable {host : Option Nat} {s u : Stack} {f : Frame}

theorem Placed.at? (h : Placed host s) {position : Nat} (hf : s.at? position = some f) :
    f.Placed host position := by
  induction s with
  | nil => cases hf
  | cons g below ih =>
    obtain ⟨hg, hbelow⟩ := placed_cons.mp h
    rw [at?_cons] at hf
    split at hf
    · next heq =>
      obtain rfl := Option.some.inj hf
      rw [heq]
      exact hg
    · exact ih hbelow hf

end Stack

namespace Turn
variable {t : Turn} {level : Nat} {u : Stack} {f : Frame}

/-- What a frame shares is in a frame below it or in the one that hosts its stack. -/
theorem exists_target (h : Stack.Placed none t.stack) (hu : t.stackAt? level = some u)
    {position : Nat} (hf : u.at? position = some f) {l : Location} (hl : f.shared = some l) :
    ∃ target w, l.target? level = some target ∧ target.level ≤ level ∧
      t.stackAt? target.level = some w ∧ target.position < w.length := by
  have hshort : position < u.length := by
    simpa only [List.length_reverse] using (List.getElem?_eq_some_iff.mp hf).1
  rcases (Frame.placed_iff.mp ((h.level hu).at? hf)).1 with ⟨-, hnone⟩ | ⟨-, -, hbeneath⟩
  · rw [hnone] at hl
    cases hl
  · rw [hl] at hbeneath
    cases position with
    | succ below =>
      obtain rfl : l = .own below := Option.some.inj hbeneath
      exact ⟨⟨level, below⟩, u, rfl, Nat.le_refl level, hu, Nat.lt_of_succ_lt hshort⟩
    | zero =>
      cases level with
      | zero => cases hbeneath
      | succ outer =>
        obtain ⟨g, rest, hg⟩ := Stack.level?_outside hu (Nat.lt_succ_self outer)
        rw [Stack.hostAt_succ hg] at hbeneath
        obtain rfl : l = .enclosing rest.length := Option.some.inj hbeneath
        exact ⟨⟨outer, rest.length⟩, g :: rest, rfl, Nat.le_succ outer, hg,
          Nat.lt_succ_self _⟩

/-- A frame that shares a memory shares one that is there. -/
theorem exists_owner (h : Stack.Placed none t.stack) (hu : t.stackAt? level = some u)
    {position : Nat} (hf : u.at? position = some f) {l : Location} (hl : f.shared = some l) :
    ∃ a g, l.owner? (t.chain level) level = some a ∧ t.frameAt? a = some g ∧
      g.memory.isSome := by
  obtain ⟨target, w, htarget, hle, hw, hposition⟩ := exists_target h hu hf hl
  exact owner?_of_target h hu htarget hle hw hposition

/-- The active frame's memory is held by a frame of the turn. -/
theorem exists_holder (h : Stack.Placed none t.stack) (hf : t.active? level = some f) :
    ∃ a g m, t.holder? level = some a ∧ t.frameAt? a = some g ∧ g.memory = some m ∧
      t.memory? level = some m := by
  obtain ⟨rest, hu⟩ := stackAt?_of_active? hf
  have hself : Stack.at? (f :: rest) rest.length = some f := by rw [Stack.at?_cons, if_pos rfl]
  cases hmemory : f.memory with
  | some m =>
    refine ⟨⟨level, rest.length⟩, f, m, ?_, ?_, hmemory, ?_⟩
    · simp [holder?, hf, hmemory, depth_of_stackAt? hu]
    · simp [frameAt?, hu, hself]
    · simp [memory?, hf, hmemory]
  | none =>
    obtain ⟨l, hl⟩ : ∃ l, f.shared = some l := by
      rcases (Frame.placed_iff.mp ((h.level hu).at? hself)).1 with ⟨hsome, -⟩ | ⟨-, hsome, -⟩
      · rw [hmemory] at hsome
        cases hsome
      · exact Option.isSome_iff_exists.mp hsome
    obtain ⟨a, g, ha, hg, howner⟩ := exists_owner h hu hself hl
    obtain ⟨m, hm⟩ := Option.isSome_iff_exists.mp howner
    have hshared : t.sharedOwner? level f = some a := by rw [sharedOwner?, hl]; exact ha
    refine ⟨a, g, m, ?_, hg, hm, ?_⟩
    · simp [holder?, hf, hmemory, hshared]
    · simp [memory?, hf, hmemory, hshared, hg, hm]

/-- No memory is opened for an active frame: it is there. -/
theorem openMemory_of_placed (h : Stack.Placed none t.stack) (hf : t.active? level = some f) :
    ∃ a g m, t.openMemory level = .ok (a, m, t) ∧ t.frameAt? a = some g ∧ g.memory = some m ∧
      t.memory? level = some m := by
  obtain ⟨a, g, m, ha, hg, hm, hmemory⟩ := exists_holder h hf
  refine ⟨a, g, m, ?_, hg, hm, hmemory⟩
  simp [openMemory, ha, hg, hm]

/-! ## The invariant -/

/-- Writing to the frame at an address whose memory is there keeps all frames placed. -/
theorem placed_write (h : Stack.Placed none t.stack) {a : Address} {g : Frame}
    (hg : t.frameAt? a = some g) (hmemory : g.memory.isSome) (m : Object) :
    Stack.Placed none (t.modifyFrame a ({ · with memory := some m })).stack := by
  refine h.modifyLevel fun u hu => (h.level hu).write fun g' hg' => ?_
  have hsame : t.frameAt? a = some g' := by simp [frameAt?, stackAt?, hu, hg']
  rw [hg] at hsame
  obtain rfl := Option.some.inj hsame
  exact hmemory

theorem openMemory_placed (h : Stack.Placed none t.stack) {a : Address} {m : Object} {t' : Turn}
    (hopen : t.openMemory level = .ok (a, m, t')) :
    t' = t ∧ ∃ g, t.frameAt? a = some g ∧ g.memory.isSome := by
  cases hf : t.active? level with
  | none => simp [openMemory, holder?, hf] at hopen
  | some f =>
    obtain ⟨a', g, m', hopen', hg, hm, -⟩ := openMemory_of_placed h hf
    rw [hopen'] at hopen
    cases hopen
    exact ⟨rfl, g, hg, by rw [hm]; rfl⟩

theorem placed_change (h : Stack.Placed none t.stack) (scope : Scope)
    (f : Object → Except Fault (α × Object)) :
    Stack.Placed none (t.change level scope f).2.stack := by
  by_cases hscope : scope = .dialog
  · subst hscope
    simp only [change]
    split
    · exact h
    · next a m t' hopen =>
      obtain ⟨rfl, g, hg, hmemory⟩ := openMemory_placed h hopen
      simp only [change.settle]
      split
      · exact placed_write h hg hmemory _
      · exact h
  · rw [change_stack t level hscope f]
    exact h

theorem placed_edit (h : Stack.Placed none t.stack) (e : Edit α) :
    Stack.Placed none (e.apply level t).2.stack := by
  cases e with
  | set path value =>
    simp only [Edit.apply, set]
    split
    · exact h
    · exact placed_change h _ _
  | delete path =>
    simp only [Edit.apply, delete]
    split
    · exact h
    · split
      · exact h
      · exact placed_change h _ _
  | openMemory =>
    simp only [Edit.apply]
    split
    · next a m t' hopen =>
      obtain ⟨rfl, -⟩ := openMemory_placed h hopen
      exact h
    · exact h
  | send activity => exact h
  | takeReplies => exact h
  | setGlobalTags tags => exact h

/-- A command begun now is linked to what is beneath it. -/
theorem sharedLocation?_eq (hu : t.stackAt? level = some u) :
    t.sharedLocation? level = Location.beneath? (Stack.hostAt none level t.stack) u.length := by
  cases u with
  | cons f rest => simp [sharedLocation?, depth, hu, Location.beneath?]
  | nil =>
    cases level with
    | zero => simp [sharedLocation?, depth, hu, Location.beneath?, Stack.hostAt]
    | succ outer =>
      obtain ⟨g, rest, hg⟩ := Stack.level?_outside hu (Nat.lt_succ_self outer)
      have hg' : t.stackAt? outer = some (g :: rest) := hg
      simp [sharedLocation?, depth, hu, hg', Location.beneath?, Stack.hostAt_succ hg]

theorem newFrame_linked (d : Dialog) (id : String) (hu : t.stackAt? level = some u) :
    (Engine.newFrame d id t level).Placed (Stack.hostAt none level t.stack) u.length := by
  unfold Engine.newFrame
  split
  · next l hl =>
    split at hl
    · rw [sharedLocation?_eq hu] at hl
      exact Frame.placed_iff.mpr ⟨Frame.linked_sharing id hl, Stack.placed_nil⟩
    · cases hl
  · exact Frame.placed_iff.mpr ⟨Frame.linked_owning _ _ id, Stack.placed_nil⟩

theorem placed_invariant : Invariant fun t => Stack.Placed none t.stack where
  edit e level t h := placed_edit h e
  push d id level t hstack h := by
    refine Stack.Placed.modifyLevel h fun u hu => ?_
    exact Stack.placed_cons.mpr ⟨newFrame_linked d id hu, h.level hu⟩
  pop level t h := Stack.Placed.modifyLevel h fun u hu => (h.level hu).tail
  truncate level depth t h := Stack.Placed.modifyLevel h fun u hu => (h.level hu).truncate depth

/-! ## Reached turns -/

/-- The turns that runs without failed replacements come to, starting from an empty stack:
what a program leaves, what a hook finds that is called during the program, and what is
started from a snapshot. As programs can call a hook between any two requests, no turn in
between is left out. -/
inductive Reached : Turn → Prop
  | opened {t : Turn} (h : t.stack = []) : Reached t
  | ran {t : Turn} {fuel : Nat} {v : View} {p : Program α} {outcome : Except Fault α} {s : Session}
      (h : Reached t) (hrun : Engine.evaluate fuel v p { turn := t } = some (outcome, s))
      (hgood : (Engine.evaluateForGood fuel v p { turn := t }).isSome) : Reached s.turn
  | found {t : Turn} {fuel : Nat} {v : View} {p : Program α} {outcome : Except Fault α}
      {s : Session} {e : Entry} {c : HookCall}
      (h : Reached t) (hrun : Engine.evaluate fuel v p { turn := t } = some (outcome, s))
      (hgood : (Engine.evaluateForGood fuel v p { turn := t }).isSome)
      (he : e ∈ s.journal) (hc : e.Calls c) : Reached c.turn
  | carried {t t' : Turn} {a : Activity} {settings : Object} (h : Reached t)
      (hstart : start a t.snapshot settings = .ok t') : Reached t'

theorem always_placed {fuel : Nat} {v : View} {p : Program α} {outcome : Except Fault α}
    {s : Session} (h : Stack.Placed none t.stack)
    (hrun : Engine.evaluate fuel v p { turn := t } = some (outcome, s))
    (hgood : (Engine.evaluateForGood fuel v p { turn := t }).isSome) :
    s.Always fun t => Stack.Placed none t.stack := by
  obtain ⟨r, hr⟩ := Option.isSome_iff_exists.mp hgood
  have hsame := Engine.evaluateForGood_sub fuel v p _ _ hr
  rw [hrun] at hsame
  obtain rfl := Option.some.inj hsame
  exact Engine.preserves_evaluateForGood placed_invariant fuel v p _ _
    ⟨h, List.forall_mem_nil _⟩ hr

theorem Reached.placed (h : Reached t) : Stack.Placed none t.stack := by
  induction h with
  | opened h =>
    rw [h]
    exact Stack.placed_nil
  | ran _ hrun hgood ih => exact (always_placed ih hrun hgood).now
  | found _ hrun hgood he hc ih => exact (always_placed ih hrun hgood).calls _ he _ hc
  | @carried t t' a settings _ hstart ih =>
    rw [start_of_stack? (snapshot_stack? t)] at hstart
    obtain rfl := Except.ok.inj hstart
    exact ih

/-- In every reached turn each frame, at whatever depth, owns a memory or shares what is
beneath it, and the frame at the bottom of the root stack owns one. So a location found in
the chain of any level leads to a frame that owns a memory, and each active frame has a
memory that is not opened for it. -/
theorem Reached.memory_found (h : Reached t) :
    Stack.Placed none t.stack ∧
    (∀ f, t.stack.getLast? = some f → f.memory.isSome) ∧
    (∀ level u position f l, t.stackAt? level = some u → u.at? position = some f →
      f.shared = some l → ∃ a g, l.owner? (t.chain level) level = some a ∧
        t.frameAt? a = some g ∧ g.memory.isSome) ∧
    ∀ level f, t.active? level = some f → ∃ a g m, t.openMemory level = .ok (a, m, t) ∧
      t.frameAt? a = some g ∧ g.memory = some m ∧ t.memory? level = some m := by
  refine ⟨h.placed, fun f => h.placed.bottom, fun level u position f l hu hf hl => ?_,
    fun level f hf => openMemory_of_placed h.placed hf⟩
  exact exists_owner h.placed hu hf hl

end Turn

/-! ## A command in a drawer -/

/-- A command that waits, whatever happens. -/
def Dialog.standingOrder (id : String) : Dialog :=
  { id, kind := .command, onBegin := fun _ => pure .waiting, onResume := fun _ _ => pure .waiting }

def Component.drawer : Component where
  id := "drawer"
  initial := "order"
  dialogs := Table.empty.insert "order" (.standingOrder "order")

def View.desk : View where
  own := (Table.empty.insert "base" (.standingOrder "base")).insert "drawer"
    Component.drawer.dialog

/-- Begins a base dialog and a drawer over it. -/
def Program.openDrawer : Program TurnResult := do
  let _ ← begin "base"
  begin "drawer"

/-- Once a drawer is open, the order inside shares the drawer's memory. -/
theorem Turn.Reached.memory_found_drawer : ∃ t f, Reached t ∧ t.active? 1 = some f ∧
    f.shared = some (.enclosing 1) ∧ ∃ a m, t.openMemory 1 = .ok (a, m, t) := by
  have hopened : Reached { activity := .message "c" "go" } := .opened rfl
  have hlocation : (Engine.evaluate 4 View.desk Program.openDrawer
        { turn := { activity := .message "c" "go" } }).map
      (fun r => (r.2.turn.active? 1).map Frame.shared) = some (some (some (.enclosing 1))) := by
    decide +kernel
  obtain ⟨⟨outcome, s⟩, hrun, hshared⟩ := Option.map_eq_some_iff.mp hlocation
  obtain ⟨f, hf, hl⟩ := Option.map_eq_some_iff.mp hshared
  have hreached : Reached s.turn := hopened.ran hrun (by decide +kernel)
  obtain ⟨-, -, -, hactive⟩ := hreached.memory_found
  obtain ⟨a, g, m, hopen, -⟩ := hactive 1 f hf
  exact ⟨s.turn, f, hreached, hf, hl, a, m, hopen⟩

end Colloquy
