import Colloquy.Proofs.Runner.Serial
import Colloquy.Proofs.Tables
import Mathlib.Data.List.Dedup
import Mathlib.Data.List.Nodup

/-!
# The register of gates

Whatever the store, and in whatever order turns arrive, go a step, end and are dropped: the
register lists each conversation with a turn under way, once, and no other. All turns of a
conversation hold on to the gate it is listed with, and as long as there is one of them, that
gate stays the conversation's own.
-/
namespace Colloquy

namespace Progress
variable {σ : Type} {p : Progress σ}

theorem gateOf_keys (h : p.register.keys.Nodup) (c : String) :
    (p.gateOf c).2.register.keys.Nodup := by
  unfold gateOf
  split
  · exact h
  · next hnone => exact Table.nodup_keys_insert h hnone _

theorem arrive_keys (h : p.register.keys.Nodup) (a : Activity) :
    (p.arrive a).2.register.keys.Nodup := gateOf_keys h a.conversation

theorem release_keys (h : p.register.keys.Nodup) (t : Task) :
    (p.release t).register.keys.Nodup := by
  simp only [release]
  split
  · exact h
  · split
    · exact h
    · exact Table.nodup_keys_erase h _

theorem setStage_tickets (p : Progress σ) (ticket : Nat) (stage : Stage) :
    (p.setStage ticket stage).tasks.map Task.ticket = p.tasks.map Task.ticket :=
  List.append_cancel_left (setStage_seen p ticket stage)

/-- A conversation is in the register while a turn of it is under way. -/
theorem Gated.find?_isSome (h : p.Gated) {c : String} :
    (p.register.find? c).isSome ↔ ∃ t ∈ p.tasks, t.conversation = c := by
  constructor
  · intro hsome
    obtain ⟨g, hg⟩ := Option.isSome_iff_exists.mp hsome
    obtain ⟨n, hn⟩ := List.exists_mem_of_ne_nil _ (h.busy c g hg)
    obtain ⟨t, ht, -⟩ := List.mem_map.mp hn
    obtain ⟨ht, hc⟩ := List.mem_filter.mp ht
    exact ⟨t, ht, of_decide_eq_true hc⟩
  · rintro ⟨t, ht, rfl⟩
    rw [h.registered t ht]
    rfl

/-- An arrival leaves the gates that are registered to their conversations. -/
theorem Gated.arrive_find? (h : p.Gated) (a : Activity) {c : String}
    (hbusy : ∃ t ∈ p.tasks, t.conversation = c) :
    (p.arrive a).2.register.find? c = p.register.find? c := by
  obtain ⟨hregister, hheld, -, -⟩ := h.gateOf a.conversation
  obtain ⟨g, hg⟩ := Option.isSome_iff_exists.mp (h.find?_isSome.mpr hbusy)
  refine (hregister c).trans ?_
  split
  · next hc => rw [hg, hheld g (hc ▸ hg)]
  · rfl

/-- A turn that goes leaves the gate to the others of its conversation. -/
theorem Gated.release_find?_of_busy (h : p.Gated) {t : Task} (ht : t ∈ p.tasks) {c : String}
    (hbusy : ∃ u ∈ (p.release t).tasks, u.conversation = c) :
    (p.release t).register.find? c = p.register.find? c := by
  obtain ⟨u, hu, rfl⟩ := hbusy
  rw [h.release_find? ht, if_neg]
  rintro ⟨-, hline⟩
  exact List.ne_nil_of_mem (mem_line hu) hline

end Progress

namespace Course
variable {σ : Type}

/-- The turns under way: those that arrived and neither ended nor were dropped. -/
def underway (s : Course σ) : List Nat :=
  (List.range s.arrived.length).filter fun n =>
    !s.dropped.contains n && !(s.progress.finished.map Finished.ticket).contains n

/-- The conversations with a turn under way, each once. -/
def conversations (s : Course σ) : List String :=
  ((s.activities s.underway).map Activity.conversation).dedup

/-- What holds of a runner's register and of what has happened so far at every moment. -/
structure Listed (s : Course σ) : Prop where
  gated : s.progress.Gated
  once : s.progress.register.keys.Nodup
  counted : s.progress.tickets = s.arrived.length
  known : ∀ n ∈ s.dropped, n < s.arrived.length
  activity : ∀ t ∈ s.progress.tasks, s.arrived[t.ticket]? = some t.activity
  underway : s.progress.tasks.map Task.ticket = s.underway

theorem listed_start (kept : σ) : (start kept).Listed where
  gated := Progress.gated_initial kept
  once := .nil
  counted := rfl
  known := fun _ hn => absurd hn List.not_mem_nil
  activity := fun _ ht => absurd ht List.not_mem_nil
  underway := rfl

namespace Listed
variable {s : Course σ} (h : s.Listed)
include h

theorem mem_conversations {c : String} :
    c ∈ s.conversations ↔ ∃ t ∈ s.progress.tasks, t.conversation = c := by
  have hactivities : s.activities s.underway = s.progress.tasks.map Task.activity := by
    rw [activities, ← h.underway, List.filterMap_map]
    exact List.filterMap_eq_map_iff_forall_eq_some.mpr h.activity
  rw [conversations, List.mem_dedup, hactivities]
  simp [Task.conversation]

/-- The register and the conversations with a turn under way are the same list, up to
order. -/
theorem keys_perm : s.progress.register.keys.Perm s.conversations := by
  refine (List.perm_ext_iff_of_nodup h.once (List.nodup_dedup _)).mpr fun c => ?_
  exact (Table.mem_keys.trans h.gated.find?_isSome).trans h.mem_conversations.symm

/-! ## One move -/

theorem arrive (r : Runner σ) (a : Activity) : (s.move r (.arrive a)).Listed where
  gated := h.gated.arrive a
  once := Progress.arrive_keys h.once a
  counted := by simp [move, h.counted]
  known := by
    intro n hn
    have hlt := h.known n hn
    simp only [move, List.length_append, List.length_singleton]
    omega
  activity := by
    intro t ht
    simp only [move, Progress.arrive_tasks, List.mem_append, List.mem_singleton] at ht ⊢
    rcases ht with hold | rfl
    · have hactivity := h.activity t hold
      have hlt := (List.getElem?_eq_some_iff.mp hactivity).1
      rw [List.getElem?_append_left hlt, hactivity]
    · simp [h.counted]
  underway := by
    have hdropped : s.dropped.contains s.arrived.length = false := by
      rw [Bool.eq_false_iff, Ne, List.contains_iff_mem]
      exact fun hmem => Nat.lt_irrefl _ (h.known _ hmem)
    have hfinished :
        (s.progress.finished.map Finished.ticket).contains s.arrived.length = false := by
      rw [Bool.eq_false_iff, Ne, List.contains_iff_mem]
      intro hmem
      have hlt := h.gated.below _ (List.mem_append_left _ hmem)
      rw [h.counted] at hlt
      exact Nat.lt_irrefl _ hlt
    have hold := h.underway
    simp only [Course.underway] at hold
    simp only [move, Course.underway, Progress.arrive_tasks, Progress.arrive_finished,
      List.map_append, List.map_cons, List.map_nil, List.length_append, List.length_singleton,
      List.range_succ, List.filter_append, hold, h.counted, List.filter_singleton, hdropped,
      hfinished]
    rfl

/-- The turns under way when one of them is dropped or ends. -/
theorem tickets_without {t : Task} {q : Course σ} (hq : q.arrived = s.arrived)
    (hover : ∀ n, (n ∈ q.dropped ∨ n ∈ q.progress.finished.map Finished.ticket) ↔
      n = t.ticket ∨ n ∈ s.dropped ∨ n ∈ s.progress.finished.map Finished.ticket) :
    (s.progress.release t).tasks.map Task.ticket = q.underway := by
  have htasks : (s.progress.release t).tasks.map Task.ticket =
      s.underway.filter (fun n => n ≠ t.ticket) := by
    rw [← h.underway, List.filter_map]
    rfl
  rw [htasks, Course.underway, Course.underway, List.filter_filter, hq]
  apply List.filter_congr
  intro n _
  have hn := hover n
  rw [Bool.eq_iff_iff]
  simp only [decide_not, Bool.and_eq_true, Bool.not_eq_true', Bool.eq_false_iff, Ne,
    List.contains_iff_mem, decide_eq_true_eq]
  tauto

theorem release {t : Task} (ht : t ∈ s.progress.tasks) :
    Listed { s with progress := s.progress.release t, dropped := s.dropped ++ [t.ticket] } where
  gated := h.gated.release ht
  once := Progress.release_keys h.once t
  counted := h.counted
  known := by
    intro n hn
    rcases List.mem_append.mp hn with hold | hnew
    · exact h.known n hold
    · rw [List.mem_singleton.mp hnew]
      exact (List.getElem?_eq_some_iff.mp (h.activity t ht)).1
  activity := fun u hu => h.activity u (List.mem_filter.mp hu).1
  underway := h.tickets_without rfl fun n => by
    simp only [List.mem_append, List.mem_singleton, Progress.release_finished]
    tauto

theorem store (kept : σ) : Listed { s with progress := { s.progress with kept } } where
  gated := h.gated.store kept
  once := h.once
  counted := h.counted
  known := h.known
  activity := h.activity
  underway := h.underway

theorem goOn {t : Task} (ht : t ∈ s.progress.tasks)
    (hfirst : (s.progress.line t.conversation).head? = some t.ticket) (stage : Stage) :
    Listed { s with progress := s.progress.setStage t.ticket stage } where
  gated := h.gated.setStage hfirst ht stage
  once := h.once
  counted := h.counted
  known := h.known
  activity := by
    intro u hu
    obtain ⟨v, hv, hticket, hactivity, -⟩ := Progress.mem_setStage hu
    rw [← hticket, ← hactivity]
    exact h.activity v hv
  underway := (s.progress.setStage_tickets t.ticket stage).trans h.underway

theorem finish {t : Task} (ht : t ∈ s.progress.tasks) (outcome : Except Fault Outcome)
    (journal : List Entry) : Listed { s with progress := s.progress.finish t outcome journal } where
  gated := h.gated.finish ht outcome journal
  once := Progress.release_keys h.once t
  counted := h.counted
  known := h.known
  activity := fun u hu => h.activity u (List.mem_filter.mp hu).1
  underway := h.tickets_without rfl fun n => by
    simp only [Progress.finish, Progress.release_finished, List.map_append, List.map_cons,
      List.map_nil, List.mem_append, List.mem_singleton]
    tauto

/-- The turn inside its gate goes a step: it has ended, or its gate is as it was. -/
theorem advance {r : Runner σ} {t : Task} (ht : t ∈ s.progress.tasks)
    (hfirst : (s.progress.line t.conversation).head? = some t.ticket) {q : Progress σ}
    (hadvance : r.Advance s.progress t q) : Listed { s with progress := q } := by
  cases hadvance with
  | @load _ kept _ _ =>
    have hkept := h.store kept
    exact hkept.goOn ht hfirst _
  | @loadFails _ kept _ _ =>
    have hkept := h.store kept
    exact hkept.finish ht _ _
  | run _ _ => exact h.goOn ht hfirst _
  | runFails _ _ => exact h.finish ht _ _
  | @save _ _ _ _ kept _ _ =>
    have hkept := h.store kept
    exact hkept.finish ht _ _

theorem move (r : Runner σ) (m : Move) : (s.move r m).Listed := by
  cases m with
  | arrive a => exact h.arrive r a
  | abandon ticket =>
    cases htask : s.progress.task? ticket with
    | none =>
      have hsame : s.move r (.abandon ticket) = s := by
        simp [Course.move, htask, Progress.abandon]
      rw [hsame]
      exact h
    | some t =>
      obtain ⟨ht, rfl⟩ := Progress.mem_of_task? htask
      have hmove : s.move r (.abandon t.ticket) =
          { s with progress := s.progress.release t, dropped := s.dropped ++ [t.ticket] } := by
        simp [Course.move, htask, Progress.abandon]
      rw [hmove]
      exact h.release ht
  | step ticket fuel =>
    rcases Runner.step_cases { r with fuel } h.gated ticket with
      hsame | ⟨t, ht, -, hfirst, hadvance⟩
    · have hstill : s.move r (.step ticket fuel) = s := by
        simp only [Course.move, hsame]
      rw [hstill]
      exact h
    · exact h.advance ht hfirst hadvance

theorem run (r : Runner σ) (moves : List Move) : (s.run r moves).Listed := by
  induction moves generalizing s with
  | nil => exact h
  | cons m rest ih => exact ih (h.move r m)

/-! ## A gate stays with its conversation -/

theorem advance_find? {r : Runner σ} {t : Task} (ht : t ∈ s.progress.tasks) {q : Progress σ}
    (hadvance : r.Advance s.progress t q) {c : String}
    (hbusy : ∃ u ∈ q.tasks, u.conversation = c) :
    q.register.find? c = s.progress.register.find? c := by
  cases hadvance with
  | load _ _ => rfl
  | run _ _ => rfl
  | @loadFails _ kept _ _ =>
    have hkept := h.gated.store kept
    exact hkept.release_find?_of_busy ht hbusy
  | runFails _ _ => exact h.gated.release_find?_of_busy ht hbusy
  | @save _ _ _ _ kept _ _ =>
    have hkept := h.gated.store kept
    exact hkept.release_find?_of_busy ht hbusy

/-- A move that leaves a conversation with turns under way leaves it its gate. -/
theorem move_find? (r : Runner σ) (m : Move) {c : String} (hbefore : c ∈ s.conversations)
    (hafter : c ∈ (s.move r m).conversations) :
    (s.move r m).progress.register.find? c = s.progress.register.find? c := by
  rw [h.mem_conversations] at hbefore
  rw [(h.move r m).mem_conversations] at hafter
  cases m with
  | arrive a => exact h.gated.arrive_find? a hbefore
  | abandon ticket =>
    simp only [Course.move, Progress.abandon] at hafter ⊢
    cases htask : s.progress.task? ticket with
    | none => rfl
    | some t =>
      rw [htask] at hafter
      exact h.gated.release_find?_of_busy (Progress.mem_of_task? htask).1 hafter
  | step ticket fuel =>
    rcases Runner.step_cases { r with fuel } h.gated ticket with
      hsame | ⟨t, ht, -, -, hadvance⟩
    · simp only [Course.move, hsame]
    · exact h.advance_find? ht hadvance hafter

theorem run_find? (r : Runner σ) (moves : List Move) {c : String}
    (hbusy : ∀ k ≤ moves.length, c ∈ (s.run r (moves.take k)).conversations) :
    (s.run r moves).progress.register.find? c = s.progress.register.find? c := by
  induction moves generalizing s with
  | nil => rfl
  | cons m rest ih =>
    have hbefore : c ∈ s.conversations := hbusy 0 (Nat.zero_le _)
    have hafter : c ∈ (s.move r m).conversations := hbusy 1 (by simp)
    have hrest := ih (h.move r m) fun k hk => hbusy (k + 1) (by simpa using hk)
    exact hrest.trans (h.move_find? r m hbefore hafter)

end Listed

/-- At every moment of every course, over whatever store: the register lists as many
conversations as have a turn under way, which are those; none when no turn is. All turns
under way in a conversation hold on to the gate that it is listed with, no other conversation
is listed with that gate, and it stays as long as there is such a turn. -/
theorem run_register (r : Runner σ) (kept : σ) (moves : List Move) :
    let s := (start kept).run r moves
    s.progress.activeConversations = s.conversations.length ∧
    (s.underway = [] → s.progress.activeConversations = 0) ∧
    (∀ c, c ∈ s.conversations ↔ ∃ g, s.progress.register.find? c = some g) ∧
    s.progress.tasks.map Task.ticket = s.underway ∧
    (∀ t ∈ s.progress.tasks, s.progress.register.find? t.conversation = some t.gate) ∧
    (∀ c c' g, s.progress.register.find? c = some g → s.progress.register.find? c' = some g →
      c = c') ∧
    ∀ c more, (∀ k ≤ more.length, c ∈ (s.run r (more.take k)).conversations) →
      (s.run r more).progress.register.find? c = s.progress.register.find? c := by
  intro s
  have h : s.Listed := (listed_start kept).run r moves
  have hsize : s.progress.activeConversations = s.conversations.length := by
    rw [← h.keys_perm.length_eq, Table.length_keys]
    rfl
  refine ⟨hsize, ?_, ?_, h.underway, h.gated.registered, h.gated.apart, ?_⟩
  · intro hnone
    rw [hsize, conversations, hnone]
    rfl
  · intro c
    rw [h.mem_conversations, ← h.gated.find?_isSome, Option.isSome_iff_exists]
  · exact fun c more => h.run_find? r more

end Course

/-- Three turns of two conversations arrive, and one is dropped while it waits. The gate that
it waited at stays when the turn ahead of it loads, and none is left once all are dropped. -/
theorem Course.run_register_patient :
    let s := (Course.start .empty).run (.inMemory .patient)
      [.arrive (.message "c" "one"), .arrive (.message "c" "two"), .arrive (.message "d" "one"),
        .abandon 1]
    let idle := s.run (.inMemory .patient) [.abandon 0, .abandon 2]
    s.progress.activeConversations = 2 ∧
    (s.run (.inMemory .patient) [.step 0 1]).progress.register.find? "c" =
      s.progress.register.find? "c" ∧
    idle.progress.activeConversations = 0 := by
  intro s idle
  obtain ⟨hsize, -, -, -, -, -, hstays⟩ := run_register (.inMemory .patient) .empty
    [.arrive (.message "c" "one"), .arrive (.message "c" "two"), .arrive (.message "d" "one"),
      .abandon 1]
  obtain ⟨-, hnone, -⟩ := run_register (.inMemory .patient) .empty
    [.arrive (.message "c" "one"), .arrive (.message "c" "two"), .arrive (.message "d" "one"),
      .abandon 1, .abandon 0, .abandon 2]
  have htwo : s.conversations.length = 2 := by decide +kernel
  have hbusy : ∀ k ≤ [Move.step 0 1].length,
      "c" ∈ (s.run (.inMemory .patient) ([Move.step 0 1].take k)).conversations := by
    decide +kernel
  exact ⟨hsize.trans htwo, hstays "c" [.step 0 1] hbusy, hnone (by decide +kernel)⟩

end Colloquy
