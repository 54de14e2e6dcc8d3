import Colloquy.Proofs.Runner.Serial

/-!
# A turn alone

A runner with no turn under way that is given one runs it to its end: to what handling
the activity comes to, over what is kept. So turns that are run one after another are
handled one after another.
-/
namespace Colloquy
variable {σ : Type}

/-- What is left of handling an activity from a stage on. -/
def Stage.outlook (r : Runner σ) (a : Activity) (kept : σ) :
    Stage → Option (Except Fault Outcome × List Entry × σ)
  | .loading => r.host.handle r.fuel r.store a kept
  | .running stored =>
    (r.host.respond r.fuel a stored).map fun answer =>
      match answer.outcome with
      | .error e => (.error e, answer.journal, kept)
      | .ok (outcome, snapshot) =>
        let (saved, kept) := r.store.save a.conversation snapshot kept
        (saved.map fun _ => outcome, answer.journal, kept)
  | .saving outcome snapshot journal =>
    let (saved, kept) := r.store.save a.conversation snapshot kept
    some (saved.map fun _ => outcome, journal, kept)

namespace Progress

/-- Nothing is under way. -/
structure Idle (p : Progress σ) : Prop where
  gated : p.Gated
  tasks : p.tasks = []

theorem idle_initial (kept : σ) : ({ kept } : Progress σ).Idle := ⟨gated_initial kept, rfl⟩

/-- One turn is under way. -/
structure Alone (p : Progress σ) (t : Task) : Prop where
  gated : p.Gated
  tasks : p.tasks = [t]

/-- A turn has come to its end, and nothing is under way. -/
structure EndedAs (q : Progress σ) (ticket : Nat) (record : Record) (kept : σ) : Prop where
  idle : q.Idle
  kept : q.kept = kept
  result : q.result? ticket = some record

theorem Idle.arrive {p : Progress σ} (h : p.Idle) (a : Activity) :
    ∃ gate, (p.arrive a).2.Alone { ticket := p.tickets, activity := a, gate } :=
  ⟨_, h.gated.arrive a, by rw [arrive_tasks, h.tasks, List.nil_append]⟩

namespace Alone
variable {p : Progress σ} {t : Task} (h : p.Alone t)
include h

theorem mem : t ∈ p.tasks := by
  rw [h.tasks]
  exact List.mem_singleton_self t

theorem isInside : p.isInside t = true := by
  rw [h.gated.isInside_iff h.mem, line, h.tasks]
  simp

theorem goOn (stage : Stage) : (p.setStage t.ticket stage).Alone { t with stage } where
  gated := h.gated.setStage ((h.gated.isInside_iff h.mem).mp h.isInside) h.mem stage
  tasks := by simp [setStage, h.tasks]

theorem store (kept : σ) : ({ p with kept } : Progress σ).Alone t := ⟨h.gated.store kept, h.tasks⟩

theorem finish (outcome : Except Fault Outcome) (journal : List Entry) :
    (p.finish t outcome journal).EndedAs t.ticket (outcome, journal) p.kept where
  idle := ⟨h.gated.finish h.mem outcome journal, by simp [Progress.finish, h.tasks]⟩
  kept := rfl
  result := h.gated.finish_result? h.mem outcome journal

/-- The turn ends as it must if it ends with nothing left to do. -/
theorem ends {r : Runner σ} {outcome : Except Fault Outcome} {journal : List Entry} {after : σ}
    {record : Record} {kept : σ}
    (hnow : t.stage.outlook r t.activity p.kept = some (outcome, journal, after))
    (houtlook : t.stage.outlook r t.activity p.kept = some (record.1, record.2, kept)) :
    ({ p with kept := after }.finish t outcome journal).EndedAs t.ticket record kept := by
  rw [hnow, Option.some.injEq, Prod.mk.injEq, Prod.mk.injEq] at houtlook
  obtain ⟨houtcome, hjournal, rfl⟩ := houtlook
  obtain rfl : (outcome, journal) = record := Prod.ext houtcome hjournal
  have halone := h.store after
  exact halone.finish outcome journal

end Alone
end Progress

namespace Runner
variable (r : Runner σ) {p : Progress σ} {t : Task} {record : Record} {kept : σ}

/-- The turn has ended as it must, or it is alone and nearer to that end. -/
def Toward (t : Task) (record : Record) (kept : σ) (q : Progress σ) : Prop :=
  q.EndedAs t.ticket record kept ∨ ∃ stage : Stage, stage.rest < t.stage.rest ∧
    q.Alone { t with stage } ∧
    stage.outlook r t.activity q.kept = some (record.1, record.2, kept)

/-- A step of a turn alone brings it toward its end. -/
theorem step_alone (h : p.Alone t)
    (houtlook : t.stage.outlook r t.activity p.kept = some (record.1, record.2, kept)) :
    r.Toward t record kept (r.step t.ticket p) := by
  rcases r.step_inside (h.gated.task?_eq h.mem) h.isInside with hadvance | ⟨_, hstage, hnone, -⟩
  · generalize r.step t.ticket p = q at hadvance ⊢
    cases hadvance with
    | @load found after hstage hload =>
      have hread : r.store.load t.activity.conversation p.kept = (.ok found, after) := hload
      have hrest : Stage.outlook r t.activity after (.running (found.getD {})) =
          some (record.1, record.2, kept) := by
        rw [hstage] at houtlook
        simp only [Stage.outlook, Host.handle, hread] at houtlook
        exact houtlook
      have halone := h.store after
      exact .inr ⟨_, by simp [hstage, Stage.rest], halone.goOn _, hrest⟩
    | @loadFails e after hstage hload =>
      have hread : r.store.load t.activity.conversation p.kept = (.error e, after) := hload
      have hnow : t.stage.outlook r t.activity p.kept = some (.error e, [], after) := by
        rw [hstage]
        simp only [Stage.outlook, Host.handle, hread]
      exact .inl (h.ends hnow houtlook)
    | @run stored outcome snapshot journal hstage hrespond =>
      have hrest : Stage.outlook r t.activity p.kept (.saving outcome snapshot journal) =
          some (record.1, record.2, kept) := by
        rw [hstage] at houtlook
        simpa only [Stage.outlook, hrespond, Option.map_some] using houtlook
      exact .inr ⟨_, by simp [hstage, Stage.rest], h.goOn _, hrest⟩
    | @runFails stored e journal hstage hrespond =>
      have hnow : t.stage.outlook r t.activity p.kept = some (.error e, journal, p.kept) := by
        rw [hstage]
        simp only [Stage.outlook, hrespond, Option.map_some]
      exact .inl (h.ends hnow houtlook)
    | @save outcome snapshot journal saved after hstage hsave =>
      have hwrite : r.store.save t.activity.conversation snapshot p.kept = (saved, after) := hsave
      have hnow : t.stage.outlook r t.activity p.kept =
          some (saved.map fun _ => outcome, journal, after) := by
        rw [hstage]
        simp only [Stage.outlook, hwrite]
      exact .inl (h.ends hnow houtlook)
  · rw [hstage] at houtlook
    simp [Stage.outlook, hnone] at houtlook

theorem step_idle (h : p.Idle) (ticket : Nat) : r.step ticket p = p := by
  simp [step, Progress.task?, h.tasks]

theorem rounds_idle (h : p.Idle) (n : Nat) : r.rounds n p = p := by
  induction n with
  | zero => rfl
  | succ n ih =>
    rw [rounds, h.tasks]
    exact ih

theorem step_toward (h : r.Toward t record kept p) :
    r.Toward t record kept (r.step t.ticket p) := by
  rcases h with hended | ⟨stage, hless, halone, houtlook⟩
  · rw [r.step_idle hended.idle]
    exact .inl hended
  · rcases r.step_alone halone houtlook with hended | ⟨next, hnext, halone', houtlook'⟩
    · exact .inl hended
    · exact .inr ⟨next, Nat.lt_trans hnext hless, halone', houtlook'⟩

theorem poll_alone (h : p.Alone t)
    (houtlook : t.stage.outlook r t.activity p.kept = some (record.1, record.2, kept)) :
    r.Toward t record kept (r.poll t.ticket p) := by
  have hstep := r.step_alone h houtlook
  unfold poll
  split
  · exact hstep
  · exact r.step_toward (r.step_toward hstep)

/-- A turn alone ends in as many rounds as it has steps to go. -/
theorem rounds_alone {n : Nat} (h : p.Alone t)
    (houtlook : t.stage.outlook r t.activity p.kept = some (record.1, record.2, kept))
    (hrest : t.stage.rest ≤ n) : (r.rounds n p).EndedAs t.ticket record kept := by
  induction n generalizing p t with
  | zero => exact absurd t.stage.rest_pos (Nat.not_lt.mpr hrest)
  | succ n ih =>
    have hround : r.rounds (n + 1) p = r.rounds n (r.poll t.ticket p) := by
      rw [rounds, h.tasks]
      rfl
    rw [hround]
    rcases r.poll_alone h houtlook with hended | ⟨stage, hless, halone, hnext⟩
    · rw [r.rounds_idle hended.idle]
      exact hended
    · have hfewer : stage.rest ≤ n := by omega
      exact ih (t := { t with stage }) halone hnext hfewer

/-- A turn that is run when nothing is under way comes to what handling its activity comes
to, and leaves what that leaves. -/
theorem runTurn_idle {a : Activity} (h : p.Idle)
    (hhandle : r.host.handle r.fuel r.store a p.kept = some (record.1, record.2, kept)) :
    (r.runTurn a p).2.EndedAs (r.runTurn a p).1 record kept := by
  obtain ⟨gate, halone⟩ := h.arrive a
  have houtlook : Stage.outlook r a (p.arrive a).2.kept .loading =
      some (record.1, record.2, kept) := by
    rw [Progress.arrive_kept]
    exact hhandle
  show (r.settle (r.poll p.tickets (p.arrive a).2)).EndedAs p.tickets record kept
  rcases r.poll_alone halone houtlook with hended | ⟨stage, hless, hthere, hnext⟩
  · rw [settle, hended.idle.tasks]
    exact hended
  · rw [settle, hthere.tasks]
    exact r.rounds_alone hthere hnext (Nat.le_of_lt hless)

/-- Runs turns one after another, each to its end. -/
def runEach (as : List Activity) (p : Progress σ) : Progress σ :=
  as.foldl (fun p a => (r.runTurn a p).2) p

end Runner
end Colloquy
