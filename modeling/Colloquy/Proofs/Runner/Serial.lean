import Colloquy.Proofs.Runner.Moves
import Colloquy.Proofs.Series

/-!
# Turns side by side come to what they come to one after another

Over the store in memory, whatever the order in which turns arrive, go a step and are
dropped: the turns of a conversation that were not dropped end in the order of their
arrival, with the outcomes, the journals and the snapshot of handling them one after
another. What happens in other conversations makes no difference.
-/
namespace Colloquy

/-- Runs turns over the store in memory. -/
def Runner.inMemory (host : Host) : Runner (Table Snapshot) := { host, fuel := 0, store := .memory }

/-- What a turn has in hand comes from what is kept of its conversation. -/
def Stage.Fits (host : Host) (a : Activity) (found : Option Snapshot) : Stage → Prop
  | .loading => True
  | .running stored => stored = found.getD {}
  | .saving outcome snapshot journal =>
    ∃ fuel, host.respond fuel a (found.getD {}) =
      some { outcome := .ok (outcome, snapshot), journal }

namespace Progress
variable (p : Progress σ)

/-- What a turn that ended came to. -/
def result? (ticket : Nat) : Option Record :=
  (p.outcome? ticket).map fun f => (f.outcome, f.journal)

@[simp] theorem isSome_result? (ticket : Nat) :
    (p.result? ticket).isSome ↔ ticket ∈ p.finished.map Finished.ticket := by
  simp [result?, outcome?]

theorem finish_result? (t : Task) (outcome : Except Fault Outcome) (journal : List Entry)
    (ticket : Nat) : (p.finish t outcome journal).result? ticket =
      (p.result? ticket).or (if t.ticket = ticket then some (outcome, journal) else none) := by
  simp only [result?, outcome?, finish, release_finished, List.find?_append]
  cases p.finished.find? (fun f => f.ticket == ticket) with
  | some f => simp
  | none => by_cases h : t.ticket = ticket <;> simp [h]

/-- What a turn came to stays as it is when another one ends. -/
theorem finish_result?_of_mem {n : Nat} (hn : n ∈ p.finished.map Finished.ticket) (t : Task)
    (outcome : Except Fault Outcome) (journal : List Entry) :
    (p.finish t outcome journal).result? n = p.result? n := by
  have hsome : (p.result? n).isSome := by simpa using hn
  rw [finish_result?]
  exact Option.or_of_isSome hsome

theorem Gated.finish_result? {p : Progress σ} (h : p.Gated) {t : Task} (ht : t ∈ p.tasks)
    (outcome : Except Fault Outcome) (journal : List Entry) :
    (p.finish t outcome journal).result? t.ticket = some (outcome, journal) := by
  have hnone : p.result? t.ticket = none := by
    rw [← Option.not_isSome_iff_eq_none, isSome_result?]
    exact h.not_finished ht
  rw [Progress.finish_result?, hnone, if_pos rfl]
  rfl

end Progress

namespace Course
variable {host : Host} {kept₀ : Table Snapshot} {s : Course (Table Snapshot)}

/-- The turns of a conversation that ended, in the order of their ends. -/
def ended (s : Course σ) (c : String) : List Nat :=
  (s.progress.finished.map Finished.ticket).filter (s.belongs c)

/-- What holds of a course over the store in memory at every moment. -/
structure Serial (host : Host) (kept₀ : Table Snapshot) (s : Course (Table Snapshot)) : Prop where
  gated : s.progress.Gated
  counted : s.progress.tickets = s.arrived.length
  known : ∀ n ∈ s.dropped, n < s.arrived.length
  activity : ∀ t ∈ s.progress.tasks, s.arrived[t.ticket]? = some t.activity
  split : ∀ c, s.survivors c = s.ended c ++ s.progress.line c
  fits : ∀ t ∈ s.progress.tasks,
    t.stage.Fits host t.activity (s.progress.kept.find? t.conversation)
  served : ∀ c, ∃ fuel results final,
    host.handleAll fuel .memory (s.activities (s.ended c)) kept₀ = some (results, final) ∧
      (s.ended c).map s.progress.result? = results.map some ∧
      final.find? c = s.progress.kept.find? c

theorem serial_start (host : Host) (kept₀ : Table Snapshot) :
    (start kept₀).Serial host kept₀ where
  gated := Progress.gated_initial kept₀
  counted := rfl
  known := fun _ hn => absurd hn List.not_mem_nil
  activity := fun _ ht => absurd ht List.not_mem_nil
  split := fun _ => rfl
  fits := fun _ ht => absurd ht List.not_mem_nil
  served := fun _ => ⟨0, [], kept₀, rfl, rfl, rfl⟩

theorem nodup_survivors (s : Course σ) (c : String) : (s.survivors c).Nodup :=
  List.nodup_range.filter _

theorem arrived_arrive (a : Activity) {n : Nat} (hn : n < s.arrived.length) :
    (s.move (.inMemory host) (.arrive a)).arrived[n]? = s.arrived[n]? :=
  List.getElem?_append_left hn

theorem belongs_arrive (a : Activity) {c : String} {n : Nat} (hn : n < s.arrived.length) :
    (s.move (.inMemory host) (.arrive a)).belongs c n = s.belongs c n := by
  simp only [belongs, arrived_arrive a hn]

namespace Serial
variable (h : s.Serial host kept₀)
include h

theorem lt_of_mem_seen {n : Nat} (hn : n ∈ s.progress.seen) : n < s.arrived.length := by
  rw [← h.counted]
  exact h.gated.below n hn

theorem lt_of_mem_ended {c : String} {n : Nat} (hn : n ∈ s.ended c) : n < s.arrived.length :=
  h.lt_of_mem_seen (List.mem_append_left _ (List.mem_filter.mp hn).1)

/-! ## Arriving -/

theorem ended_arrive (a : Activity) (c : String) :
    (s.move (.inMemory host) (.arrive a)).ended c = s.ended c := by
  have hfinished : (s.move (.inMemory host) (.arrive a)).progress.finished =
      s.progress.finished := Progress.arrive_finished _ _
  rw [ended, ended, hfinished]
  apply List.filter_congr
  intro n hn
  exact belongs_arrive a (h.lt_of_mem_seen (List.mem_append_left _ hn))

/-- A turn that arrives comes after those that survived so far. -/
theorem survivors_arrive (a : Activity) (c : String) :
    (s.move (.inMemory host) (.arrive a)).survivors c =
      s.survivors c ++ if a.conversation = c then [s.arrived.length] else [] := by
  have hlength : (s.move (.inMemory host) (.arrive a)).arrived.length =
      s.arrived.length + 1 := by simp [move]
  have hdropped : (s.move (.inMemory host) (.arrive a)).dropped = s.dropped := rfl
  have hold : (List.range s.arrived.length).filter (fun n =>
      (s.move (.inMemory host) (.arrive a)).belongs c n && !s.dropped.contains n) =
        s.survivors c := by
    apply List.filter_congr
    intro n hn
    rw [belongs_arrive a (List.mem_range.mp hn)]
  have hlast : (s.move (.inMemory host) (.arrive a)).belongs c s.arrived.length =
      decide (a.conversation = c) := by
    simp [belongs, move]
  have hundropped : s.dropped.contains s.arrived.length = false := by
    rw [Bool.eq_false_iff, Ne, List.contains_iff_mem]
    intro hmem
    exact Nat.lt_irrefl _ (h.known _ hmem)
  rw [survivors, hlength, hdropped, List.range_succ, List.filter_append, hold]
  congr 1
  rw [List.filter_singleton, hlast, hundropped]
  by_cases hc : a.conversation = c <;> simp [hc]

theorem arrive (a : Activity) : (s.move (.inMemory host) (.arrive a)).Serial host kept₀ := by
  constructor
  case gated => exact h.gated.arrive a
  case counted => simp [move, h.counted]
  case known =>
    intro n hn
    have hlt := h.known n hn
    simp only [move, List.length_append, List.length_singleton]
    omega
  case activity =>
    intro t ht
    simp only [move, Progress.arrive_tasks, List.mem_append, List.mem_singleton] at ht
    rcases ht with hold | rfl
    · have hactivity := h.activity t hold
      have hlt := (List.getElem?_eq_some_iff.mp hactivity).1
      exact (arrived_arrive a hlt).trans hactivity
    · simp [move, h.counted]
  case split =>
    intro c
    have hline : (s.move (.inMemory host) (.arrive a)).progress.line c =
        s.progress.line c ++ if a.conversation = c then [s.arrived.length] else [] := by
      rw [← h.counted]
      exact Progress.arrive_line _ _ _
    rw [h.survivors_arrive, h.split c, h.ended_arrive, hline, List.append_assoc]
  case fits =>
    intro t ht
    have hkept : (s.move (.inMemory host) (.arrive a)).progress.kept = s.progress.kept :=
      Progress.arrive_kept _ _
    rw [hkept]
    simp only [move, Progress.arrive_tasks, List.mem_append, List.mem_singleton] at ht
    rcases ht with hold | rfl
    · exact h.fits t hold
    · trivial
  case served =>
    intro c
    obtain ⟨fuel, results, final, hrun, hresults, hfinal⟩ := h.served c
    have hactivities : (s.move (.inMemory host) (.arrive a)).activities (s.ended c) =
        s.activities (s.ended c) :=
      List.filterMap_congr fun n hn => arrived_arrive a (h.lt_of_mem_ended hn)
    have hresult : (s.move (.inMemory host) (.arrive a)).progress.result? =
        s.progress.result? := by
      ext1 n
      simp [Progress.result?, Progress.outcome?, move]
    rw [h.ended_arrive, hactivities, hresult]
    refine ⟨fuel, results, final, hrun, hresults, ?_⟩
    rw [hfinal]
    exact congrArg (Table.find? · c) (Progress.arrive_kept _ _).symm

/-! ## Being dropped -/

theorem not_mem_ended {t : Task} (ht : t ∈ s.progress.tasks) (c : String) :
    t.ticket ∉ s.ended c := by
  intro hmem
  exact h.gated.not_finished ht (List.mem_filter.mp hmem).1

theorem drop (ticket : Nat) : (s.move (.inMemory host) (.abandon ticket)).Serial host kept₀ := by
  cases htask : s.progress.task? ticket with
  | none =>
    have hsame : s.move (.inMemory host) (.abandon ticket) = s := by
      simp [move, htask, Progress.abandon]
    rw [hsame]
    exact h
  | some t =>
    obtain ⟨ht, hticket⟩ := Progress.mem_of_task? htask
    have hmove : s.move (.inMemory host) (.abandon ticket) =
        { s with progress := s.progress.release t, dropped := s.dropped ++ [t.ticket] } := by
      rw [← hticket] at htask ⊢
      simp [move, htask, Progress.abandon]
    rw [hmove]
    constructor
    case gated => exact h.gated.release ht
    case counted => exact h.counted
    case known =>
      intro n hn
      rcases List.mem_append.mp hn with hold | hnew
      · exact h.known n hold
      · rw [List.mem_singleton.mp hnew]
        exact h.lt_of_mem_seen (Progress.mem_seen_of_line (Progress.mem_line ht))
    case activity => exact fun u hu => h.activity u (List.mem_filter.mp hu).1
    case split =>
      intro c
      have hsurvivors : survivors
          { s with progress := s.progress.release t, dropped := s.dropped ++ [t.ticket] } c =
            (s.survivors c).erase t.ticket := by
        rw [(s.nodup_survivors c).erase_eq_filter, survivors, survivors, List.filter_filter]
        apply List.filter_congr
        intro n _
        by_cases hn : n = t.ticket <;> simp [belongs, hn]
      have hended : ended
          { s with progress := s.progress.release t, dropped := s.dropped ++ [t.ticket] } c =
            s.ended c := rfl
      rw [hsurvivors, hended, h.split c, h.gated.release_line,
        List.erase_append_right _ (h.not_mem_ended ht c)]
    case fits => exact fun u hu => h.fits u (List.mem_filter.mp hu).1
    case served => exact h.served

/-! ## Going a step -/

/-- The turn inside goes on, with something in hand that comes from what is kept. -/
theorem goOn {t : Task} (ht : t ∈ s.progress.tasks)
    (hfirst : (s.progress.line t.conversation).head? = some t.ticket) {stage : Stage}
    (hfits : stage.Fits host t.activity (s.progress.kept.find? t.conversation)) :
    Serial host kept₀ { s with progress := s.progress.setStage t.ticket stage } where
  gated := h.gated.setStage hfirst ht stage
  counted := h.counted
  known := h.known
  activity := by
    intro u hu
    obtain ⟨v, hv, hticket, hactivity, -, -⟩ := Progress.mem_setStage hu
    have hv' := h.activity v hv
    rwa [hticket, hactivity] at hv'
  split := by
    intro c
    rw [Progress.setStage_line]
    exact h.split c
  fits := by
    intro u hu
    obtain ⟨v, hv, hticket, hactivity, -, hstage⟩ := Progress.mem_setStage hu
    have hc : u.conversation = v.conversation := congrArg Activity.conversation hactivity.symm
    rw [hstage, hc, ← hactivity]
    by_cases hsame : v.ticket = t.ticket
    · rw [if_pos hsame, h.gated.task_eq hv ht hsame]
      exact hfits
    · rw [if_neg hsame]
      exact h.fits v hv
  served := h.served

theorem ended_finish {t : Task} (ht : t ∈ s.progress.tasks) (outcome : Except Fault Outcome)
    (journal : List Entry) (kept : Table Snapshot) (c : String) :
    ended { s with progress := { s.progress with kept }.finish t outcome journal } c =
      s.ended c ++ if t.conversation = c then [t.ticket] else [] := by
  have hbelongs : s.belongs c t.ticket = decide (t.conversation = c) := by
    rw [belongs, h.activity t ht]
    rfl
  have hsame : belongs
      { s with progress := { s.progress with kept }.finish t outcome journal } c =
        s.belongs c := rfl
  have hfinished : ({ s.progress with kept }.finish t outcome journal).finished =
      s.progress.finished ++ [{ ticket := t.ticket, outcome, journal }] := rfl
  rw [ended, hsame, hfinished, List.map_append, List.filter_append, ended]
  congr 1
  by_cases hc : t.conversation = c <;> simp [hbelongs, hc]

/-- A turn that ended came to what it comes to after those that ended before it. -/
theorem finish {t : Task} (ht : t ∈ s.progress.tasks) (hloaded : t.HasLoaded)
    {outcome : Except Fault Outcome} {journal : List Entry} {kept : Table Snapshot}
    (hhandle : ∀ found : Table Snapshot,
      found.find? t.conversation = s.progress.kept.find? t.conversation →
        ∃ fuel final,
          host.handle fuel .memory t.activity found = some (outcome, journal, final) ∧
          final.find? t.conversation = kept.find? t.conversation)
    (hothers : ∀ c, c ≠ t.conversation → kept.find? c = s.progress.kept.find? c) :
    Serial host kept₀
      { s with progress := { s.progress with kept }.finish t outcome journal } := by
  have hkept := h.gated.store kept
  have hended := h.ended_finish ht outcome journal kept
  have hline (c : String) : ({ s.progress with kept }.finish t outcome journal).line c =
      (s.progress.line c).erase t.ticket := hkept.release_line t c
  constructor
  case gated => exact hkept.finish ht outcome journal
  case counted => exact h.counted
  case known => exact h.known
  case activity => exact fun u hu => h.activity u (List.mem_filter.mp hu).1
  case split =>
    intro c
    rw [hended, hline]
    refine (h.split c).trans ?_
    by_cases hc : t.conversation = c
    · subst hc
      -- a turn that has loaded is first in line, so turns end in the order of their arrival
      obtain ⟨rest, hrest⟩ := List.head?_eq_some_iff.mp (h.gated.first t ht hloaded)
      simp [hrest]
    · rw [List.erase_of_not_mem (h.gated.not_mem_line ht (Ne.symm hc))]
      simp [hc]
  case fits =>
    intro u hu
    obtain ⟨hu, hne⟩ := List.mem_filter.mp hu
    by_cases hc : u.conversation = t.conversation
    · -- what is kept has changed, but no other turn of the conversation has read it yet
      have hloading : u.stage = .loading := by
        by_contra hloaded'
        have hsame := h.gated.exclusive hu ht hc hloaded' hloaded
        exact of_decide_eq_true hne (congrArg Task.ticket hsame)
      rw [hloading]
      trivial
    · have hfits := h.fits u hu
      rwa [← hothers _ hc] at hfits
  case served =>
    intro c
    obtain ⟨n, results, final, hrun, hresults, hfinal⟩ := h.served c
    have hold : (s.ended c).map ({ s.progress with kept }.finish t outcome journal).result? =
        results.map some := by
      rw [← hresults]
      refine List.map_congr_left fun n hn => ?_
      have hbefore := (List.mem_filter.mp hn).1
      exact Progress.finish_result?_of_mem { s.progress with kept } hbefore t outcome journal
    rw [hended]
    by_cases hc : t.conversation = c
    · subst hc
      obtain ⟨fuel, last, hhandled, hlast'⟩ := hhandle final hfinal
      refine ⟨max n fuel, results ++ [(outcome, journal)], last, ?_, ?_, hlast'⟩
      · have hactivities : s.activities (s.ended t.conversation ++ [t.ticket]) =
            s.activities (s.ended t.conversation) ++ [t.activity] := by
          simp [activities, h.activity t ht]
        rw [if_pos rfl]
        exact hactivities ▸ host.handleAll_snoc hrun hhandled
      · have hlast := hkept.finish_result? ht outcome journal
        rw [if_pos rfl, List.map_append, List.map_append, hold, List.map_singleton, hlast]
        rfl
    · refine ⟨n, results, final, ?_, ?_, ?_⟩
      · rw [if_neg hc, List.append_nil]
        exact hrun
      · rw [if_neg hc, List.append_nil]
        exact hold
      · exact hfinal.trans (hothers c (Ne.symm hc)).symm

theorem advance {fuel : Nat} {t : Task} {q : Progress (Table Snapshot)}
    (ht : t ∈ s.progress.tasks) (hfirst : (s.progress.line t.conversation).head? = some t.ticket)
    (hadvance : Runner.Advance { Runner.inMemory host with fuel } s.progress t q) :
    Serial host kept₀ { s with progress := q } := by
  have hfits := h.fits t ht
  cases hadvance with
  | load hstage hload =>
    obtain ⟨hfound, rfl⟩ := Prod.mk.inj hload
    cases hfound
    exact h.goOn ht hfirst rfl
  | loadFails hstage hload => cases hload
  | run hstage hrespond =>
    rw [hstage] at hfits
    obtain rfl := hfits
    exact h.goOn ht hfirst ⟨fuel, hrespond⟩
  | @runFails stored e journal hstage hrespond =>
    rw [hstage] at hfits
    obtain rfl := hfits
    have hloaded : t.HasLoaded := by simp [Task.HasLoaded, hstage]
    refine h.finish ht hloaded (fun found hfound => ⟨fuel, found, ?_, hfound⟩) (fun _ _ => rfl)
    have hsame : host.respond fuel t.activity ((found.find? t.conversation).getD {}) =
        some { outcome := .error e, journal } := by
      rw [hfound]
      exact hrespond
    exact host.handle_memory_error hsame
  | @save outcome snapshot journal saved kept hstage hsave =>
    rw [hstage] at hfits
    obtain ⟨spent, hrespond⟩ := hfits
    obtain ⟨rfl, rfl⟩ := Prod.mk.inj hsave
    have hloaded : t.HasLoaded := by simp [Task.HasLoaded, hstage]
    refine h.finish ht hloaded
      (fun found hfound => ⟨spent, found.insert t.conversation snapshot, ?_, ?_⟩) (fun c hc => ?_)
    · have hsame : host.respond spent t.activity ((found.find? t.conversation).getD {}) =
          some { outcome := .ok (outcome, snapshot), journal } := by
        rw [hfound]
        exact hrespond
      exact host.handle_memory_ok hsame
    · simp
    · simp [hc]

theorem move (m : Move) : (s.move (.inMemory host) m).Serial host kept₀ := by
  cases m with
  | arrive a => exact h.arrive a
  | abandon ticket => exact h.drop ticket
  | step ticket fuel =>
    rcases Runner.step_cases { Runner.inMemory host with fuel } h.gated ticket with
      hsame | ⟨t, ht, -, hfirst, hadvance⟩
    · have hstill : s.move (.inMemory host) (.step ticket fuel) = s := by
        simp only [Course.move, hsame]
      rw [hstill]
      exact h
    · exact h.advance ht hfirst hadvance

theorem run (moves : List Move) : (s.run (.inMemory host) moves).Serial host kept₀ := by
  induction moves generalizing s with
  | nil => exact h
  | cons m rest ih => exact ih (h.move m)

end Serial

/-- Turns side by side are serializable. At every moment of every course: of the turns of
a conversation at most one is between its loading and its saving; those that were not
dropped end in the order of their arrival, and they come to what they come to when they
alone are handled one after another, as does what is kept of the conversation. When the
dialogs always come to an answer, the turns under way can be brought to their ends. -/
theorem run_serial (host : Host) (kept₀ : Table Snapshot) (moves : List Move) :
    let s := (start kept₀).run (.inMemory host) moves
    (∀ t ∈ s.progress.tasks, ∀ u ∈ s.progress.tasks, t.conversation = u.conversation →
      t.HasLoaded → u.HasLoaded → t = u) ∧
    (∀ c, s.survivors c = s.ended c ++ s.progress.line c ∧
      ∃ n results final,
        (∀ fuel ≥ n, host.handleAll fuel .memory (s.activities (s.ended c)) kept₀ =
          some (results, final)) ∧
        (s.ended c).map s.progress.result? = results.map some ∧
        s.progress.kept.find? c = final.find? c) ∧
    ((∀ a stored, ∃ fuel, (host.respond fuel a stored).isSome) →
      ∃ steps : List (Nat × Nat), (s.run (.inMemory host)
        (steps.map fun (ticket, fuel) => .step ticket fuel)).progress.tasks = []) := by
  intro s
  have h : s.Serial host kept₀ := (serial_start host kept₀).run moves
  refine ⟨fun t ht u hu hc => h.gated.exclusive ht hu hc, fun c => ⟨h.split c, ?_⟩, ?_⟩
  · obtain ⟨n, results, final, hrun, hresults, hfinal⟩ := h.served c
    exact ⟨n, results, final, fun fuel hfuel => host.handleAll_mono hfuel hrun, hresults,
      hfinal.symm⟩
  · exact exists_completion h.gated (.inMemory host)

end Course

namespace Host

/-- A host of one dialog, which always waits. -/
def patient : Host where
  dialogs := Table.empty.insert "wait" {
    id := "wait"
    onBegin := fun _ => pure .waiting
    onContinue := pure .waiting
    onResume := fun _ _ => pure .waiting }
  root := "wait"

theorem patient_find? {id : String} {d : Dialog} (h : patient.view.find? id = some d) :
    d.children = none ∧ ∀ hook, ∃ r, d.program hook = pure r := by
  simp only [View.find?, View.sets, Host.view, patient, List.findSome?_singleton,
    Table.find?_insert] at h
  split at h
  · cases h
    refine ⟨rfl, fun hook => ?_⟩
    cases hook <;> exact ⟨_, rfl⟩
  · simp at h

theorem patient_leaf (t : Turn) : patient.view.leaf t = patient.view := by
  unfold View.leaf
  cases t.active? patient.view.level with
  | none => rfl
  | some f =>
    obtain ⟨id, memory, shared, children⟩ := f
    cases children with
    | nil => rfl
    | cons g rest =>
      simp only [View.leafUnder]
      cases hd : patient.view.find? id with
      | none => rfl
      | some d => simp [(patient_find? hd).1]

theorem patient_runStack (activity : Json) : (patient.runStack 1 activity).Halts := by
  have hcall {id : String} {d : Dialog} (hd : patient.view.find? id = some d) (hook : Hook) :
      (Engine.call 1 patient.view d hook).Halts := by
    intro s
    obtain ⟨r, hr⟩ := (patient_find? hd).2 hook
    simp only [Engine.call, hr]
    rfl
  have goOn : (do
      let result ← Engine.advance (Engine.call 1) patient.view
      if result.status = .empty then Engine.begin (Engine.call 1) patient.view patient.root none
      else pure result : Eval TurnResult).Halts := by
    refine Eval.bind_halts (Engine.advance_halts hcall) fun result => ?_
    by_cases hempty : result.status = .empty
    · simpa only [if_pos hempty] using Engine.begin_halts hcall _ _
    · simpa only [if_neg hempty] using Eval.pure_halts result
  unfold runStack
  refine Eval.bind_halts Eval.turn_halts fun turn => ?_
  by_cases hdepth : 0 < turn.depth 0
  · simp only [if_pos hdepth]
    refine Eval.bind_halts ?_ fun handled => ?_
    · refine Eval.bind_halts Eval.turn_halts fun turn => ?_
      simp only [if_true, patient_leaf]
      exact Engine.offer_halts hcall _ (Eval.pure_halts _)
    · by_cases handled : handled = true
      · simp only [if_pos handled]
        exact Eval.bind_halts Eval.turn_halts fun turn => Eval.pure_halts _
      · simpa only [if_neg handled] using goOn
  · simpa only [if_neg hdepth] using goOn

theorem patient_respond (a : Activity) (stored : Snapshot) :
    (patient.respond 1 a stored).isSome := by
  unfold respond
  cases Turn.start a stored patient.settings with
  | error e => rfl
  | ok turn =>
    rw [Option.isSome_map]
    exact patient_runStack a.toJson _

end Host

/-- Two turns of a conversation arrive, the first loads and the second is dropped. -/
theorem Course.run_serial_patient : ∃ steps : List (Nat × Nat),
    (((Course.start .empty).run (.inMemory .patient)
      [.arrive (.message "c" "one"), .arrive (.message "c" "two"), .step 0 1, .abandon 1]).run
        (.inMemory .patient) (steps.map fun (ticket, fuel) => .step ticket fuel)).progress.tasks =
          [] :=
  (Course.run_serial .patient .empty _).2.2 fun a stored => ⟨1, Host.patient_respond a stored⟩

end Colloquy
