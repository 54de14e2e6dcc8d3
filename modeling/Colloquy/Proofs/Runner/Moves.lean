import Colloquy.Proofs.Runner.Gates

/-!
# What can happen to a runner

A runner moves on when a turn arrives, when a turn goes a step and when a turn is
dropped, in any order. Turns that do not suspend are those whose steps follow one
another, so the runs of a runner are among the sequences of moves. A course is a
runner's progress together with what has happened so far.
-/
namespace Colloquy

/-- What happens next. A step is given the fuel it may spend. -/
inductive Move where
  | arrive (a : Activity)
  | step (ticket fuel : Nat)
  | abandon (ticket : Nat)

/-- The steps that a turn has to go at most. -/
def Stage.rest : Stage → Nat
  | .loading => 3
  | .running _ => 2
  | .saving _ _ _ => 1

theorem Stage.rest_pos (stage : Stage) : 0 < stage.rest := by
  cases stage <;> simp [rest]

namespace Task

/-- The steps that all of the turns have to go at most. -/
def rests : List Task → Nat
  | [] => 0
  | t :: others => t.stage.rest + rests others

theorem rests_filter_le (keep : Task → Bool) (tasks : List Task) :
    rests (tasks.filter keep) ≤ rests tasks := by
  induction tasks with
  | nil => simp
  | cons u others ih =>
    rw [List.filter_cons]
    split
    · simp only [rests]
      omega
    · simp only [rests]
      omega

theorem rests_filter_lt {keep : Task → Bool} {t : Task} {tasks : List Task} (ht : t ∈ tasks)
    (hout : keep t = false) : rests (tasks.filter keep) < rests tasks := by
  induction tasks with
  | nil => exact absurd ht List.not_mem_nil
  | cons u others ih =>
    rcases List.mem_cons.mp ht with rfl | hrest
    · have hle := rests_filter_le keep others
      have hpos := t.stage.rest_pos
      rw [List.filter_cons, hout]
      simp only [rests, Bool.false_eq_true, if_false]
      omega
    · have hlt := ih hrest
      rw [List.filter_cons]
      split
      · simp only [rests]
        omega
      · simp only [rests]
        omega

theorem rests_map_le {f : Task → Task} {tasks : List Task}
    (hle : ∀ u ∈ tasks, (f u).stage.rest ≤ u.stage.rest) :
    rests (tasks.map f) ≤ rests tasks := by
  induction tasks with
  | nil => simp
  | cons u others ih =>
    have hfirst := hle u List.mem_cons_self
    have hothers := ih fun w hw => hle w (List.mem_cons_of_mem u hw)
    simp only [List.map_cons, rests]
    omega

theorem rests_map_lt {f : Task → Task} {t : Task} {tasks : List Task}
    (hle : ∀ u ∈ tasks, (f u).stage.rest ≤ u.stage.rest) (ht : t ∈ tasks)
    (hlt : (f t).stage.rest < t.stage.rest) : rests (tasks.map f) < rests tasks := by
  induction tasks with
  | nil => exact absurd ht List.not_mem_nil
  | cons u others ih =>
    have hfirst := hle u List.mem_cons_self
    have hothers : ∀ w ∈ others, (f w).stage.rest ≤ w.stage.rest :=
      fun w hw => hle w (List.mem_cons_of_mem u hw)
    simp only [List.map_cons, rests]
    rcases List.mem_cons.mp ht with rfl | hrest
    · have hrests := rests_map_le hothers
      omega
    · have hrests := ih hothers hrest
      omega

end Task

/-- What a step of the turn inside comes to. -/
inductive Runner.Advance (r : Runner σ) (p : Progress σ) (t : Task) : Progress σ → Prop where
  | load {found kept} (hstage : t.stage = .loading)
      (hload : r.store.load t.conversation p.kept = (.ok found, kept)) :
      Advance r p t ({ p with kept }.setStage t.ticket (.running (found.getD {})))
  | loadFails {e kept} (hstage : t.stage = .loading)
      (hload : r.store.load t.conversation p.kept = (.error e, kept)) :
      Advance r p t ({ p with kept }.finish t (.error e) [])
  | run {stored outcome snapshot journal} (hstage : t.stage = .running stored)
      (hrespond : r.host.respond r.fuel t.activity stored =
        some { outcome := .ok (outcome, snapshot), journal }) :
      Advance r p t (p.setStage t.ticket (.saving outcome snapshot journal))
  | runFails {stored e journal} (hstage : t.stage = .running stored)
      (hrespond : r.host.respond r.fuel t.activity stored =
        some { outcome := .error e, journal }) :
      Advance r p t (p.finish t (.error e) journal)
  | save {outcome snapshot journal saved kept} (hstage : t.stage = .saving outcome snapshot journal)
      (hsave : r.store.save t.conversation snapshot p.kept = (saved, kept)) :
      Advance r p t ({ p with kept }.finish t (saved.map fun _ => outcome) journal)

namespace Progress
variable {σ : Type} {p : Progress σ}

theorem Gated.task?_eq (h : p.Gated) {t : Task} (ht : t ∈ p.tasks) :
    p.task? t.ticket = some t := by
  cases hfind : p.task? t.ticket with
  | none =>
    have hno := List.find?_eq_none.mp hfind t ht
    simp at hno
  | some u =>
    obtain ⟨hu, hticket⟩ := mem_of_task? hfind
    rw [h.task_eq hu ht hticket]

/-- What is kept does not concern the gates. -/
theorem Gated.store (h : p.Gated) (kept : σ) : ({ p with kept } : Progress σ).Gated :=
  ⟨h.distinct, h.below, h.registered, h.busy, h.gate, h.apart, h.first⟩

theorem Gated.advance (h : p.Gated) {r : Runner σ} {t : Task} (ht : t ∈ p.tasks)
    (hfirst : (p.line t.conversation).head? = some t.ticket) {q : Progress σ}
    (hadvance : r.Advance p t q) : q.Gated := by
  cases hadvance with
  | @load found kept _ _ =>
    have hkept := h.store kept
    exact hkept.setStage hfirst ht _
  | @loadFails e kept _ _ =>
    have hkept := h.store kept
    exact hkept.finish ht _ _
  | run _ _ => exact h.setStage hfirst ht _
  | runFails _ _ => exact h.finish ht _ _
  | @save _ _ _ _ kept _ _ =>
    have hkept := h.store kept
    exact hkept.finish ht _ _

/-- The steps that the turns under way have to go at most. -/
def work (p : Progress σ) : Nat := Task.rests p.tasks

theorem work_release_lt {t : Task} (ht : t ∈ p.tasks) : (p.release t).work < p.work := by
  have hout : decide (t.ticket ≠ t.ticket) = false := by simp
  exact Task.rests_filter_lt ht hout

theorem Gated.work_setStage_lt (h : p.Gated) {t : Task} (ht : t ∈ p.tasks) {stage : Stage}
    (hless : stage.rest < t.stage.rest) : (p.setStage t.ticket stage).work < p.work := by
  refine Task.rests_map_lt (fun u hu => ?_) ht ?_
  · by_cases hticket : u.ticket = t.ticket
    · rw [h.task_eq hu ht hticket, if_pos rfl]
      exact Nat.le_of_lt hless
    · have hsame : (if u.ticket = t.ticket then { u with stage } else u) = u := if_neg hticket
      exact Nat.le_of_eq (congrArg (fun w : Task => w.stage.rest) hsame)
  · rw [if_pos rfl]
    exact hless

theorem Gated.work_advance_lt (h : p.Gated) {r : Runner σ} {t : Task} (ht : t ∈ p.tasks)
    {q : Progress σ} (hadvance : r.Advance p t q) : q.work < p.work := by
  cases hadvance with
  | @load found kept hstage _ =>
    have hkept := h.store kept
    exact hkept.work_setStage_lt ht (by simp [hstage, Stage.rest])
  | @run stored outcome snapshot journal hstage _ =>
    exact h.work_setStage_lt ht (by simp [hstage, Stage.rest])
  | @loadFails e kept _ _ => exact work_release_lt (p := { p with kept }) ht
  | runFails _ _ => exact work_release_lt ht
  | @save _ _ _ _ kept _ _ => exact work_release_lt (p := { p with kept }) ht

end Progress

namespace Runner
variable {σ : Type} (r : Runner σ) {p : Progress σ}

/-- The turn inside goes on, unless its dialogs want more fuel. -/
theorem step_inside {t : Task} (htask : p.task? t.ticket = some t) (hinside : p.isInside t = true) :
    r.Advance p t (r.step t.ticket p) ∨
      ∃ stored, t.stage = .running stored ∧ r.host.respond r.fuel t.activity stored = none ∧
        r.step t.ticket p = p := by
  cases hstage : t.stage with
  | loading =>
    cases hload : r.store.load t.conversation p.kept with
    | mk found kept =>
      have hread : r.store.load t.activity.conversation p.kept = (found, kept) := hload
      cases found with
      | error e =>
        have hstep : r.step t.ticket p = { p with kept }.finish t (.error e) [] := by
          simp [step, htask, hinside, hstage, hread]
        rw [hstep]
        exact .inl (.loadFails hstage hload)
      | ok found =>
        have hstep : r.step t.ticket p =
            { p with kept }.setStage t.ticket (.running (found.getD {})) := by
          simp [step, htask, hinside, hstage, hread]
        rw [hstep]
        exact .inl (.load hstage hload)
  | running stored =>
    cases hrespond : r.host.respond r.fuel t.activity stored with
    | none =>
      have hstep : r.step t.ticket p = p := by simp [step, htask, hinside, hstage, hrespond]
      exact .inr ⟨stored, rfl, hrespond, hstep⟩
    | some answer =>
      obtain ⟨outcome, journal⟩ := answer
      cases outcome with
      | error e =>
        have hstep : r.step t.ticket p = p.finish t (.error e) journal := by
          simp [step, htask, hinside, hstage, hrespond]
        rw [hstep]
        exact .inl (.runFails hstage hrespond)
      | ok result =>
        have hstep : r.step t.ticket p =
            p.setStage t.ticket (.saving result.1 result.2 journal) := by
          simp [step, htask, hinside, hstage, hrespond]
        rw [hstep]
        exact .inl (.run hstage hrespond)
  | saving outcome snapshot journal =>
    cases hsave : r.store.save t.conversation snapshot p.kept with
    | mk saved kept =>
      have hwritten : r.store.save t.activity.conversation snapshot p.kept = (saved, kept) :=
        hsave
      have hstep : r.step t.ticket p =
          { p with kept }.finish t (saved.map fun _ => outcome) journal := by
        simp [step, htask, hinside, hstage, hwritten]
      rw [hstep]
      exact .inl (.save hstage hsave)

/-- A step changes nothing, or it is that of the turn inside its gate. -/
theorem step_cases (h : p.Gated) (ticket : Nat) :
    r.step ticket p = p ∨ ∃ t ∈ p.tasks, t.ticket = ticket ∧
      (p.line t.conversation).head? = some t.ticket ∧ r.Advance p t (r.step ticket p) := by
  cases htask : p.task? ticket with
  | none => exact .inl (by simp [step, htask])
  | some t =>
    obtain ⟨ht, hticket⟩ := Progress.mem_of_task? htask
    cases hinside : p.isInside t with
    | false => exact .inl (by simp [step, htask, hinside])
    | true =>
      subst hticket
      rcases r.step_inside htask hinside with hadvance | ⟨stored, -, -, hsame⟩
      · exact .inr ⟨t, ht, rfl, (h.isInside_iff ht).mp hinside, hadvance⟩
      · exact .inl hsame

/-- While turns are under way, one of them can go a step, if it gets the fuel it wants. -/
theorem exists_step (h : p.Gated)
    (hhalts : ∀ a stored, ∃ fuel, (r.host.respond fuel a stored).isSome) (hunder : p.tasks ≠ []) :
    ∃ ticket fuel, ({ r with fuel }.step ticket p).Gated ∧
      ({ r with fuel }.step ticket p).work < p.work := by
  obtain ⟨u, hu⟩ := List.exists_mem_of_ne_nil _ hunder
  obtain ⟨first, rest, hline⟩ := List.exists_cons_of_ne_nil
    (List.ne_nil_of_mem (Progress.mem_line hu))
  have hmem : first ∈ p.line u.conversation := by
    rw [hline]
    exact List.mem_cons_self
  obtain ⟨t, ht, rfl⟩ := List.mem_map.mp hmem
  obtain ⟨ht, hc⟩ := List.mem_filter.mp ht
  have hfirst : (p.line t.conversation).head? = some t.ticket := by
    rw [of_decide_eq_true hc, hline]
    rfl
  obtain ⟨fuel, hfuel⟩ : ∃ fuel, ∀ stored, t.stage = .running stored →
      (r.host.respond fuel t.activity stored).isSome := by
    cases hstage : t.stage with
    | running stored =>
      obtain ⟨fuel, hsome⟩ := hhalts t.activity stored
      exact ⟨fuel, fun _ hsame => by cases hsame; exact hsome⟩
    | loading => exact ⟨0, fun _ hsame => by cases hsame⟩
    | saving outcome snapshot journal => exact ⟨0, fun _ hsame => by cases hsame⟩
  refine ⟨t.ticket, fuel, ?_⟩
  rcases step_inside { r with fuel } (h.task?_eq ht) ((h.isInside_iff ht).mpr hfirst) with
    hadvance | ⟨stored, hstage, hnone, -⟩
  · exact ⟨h.advance ht hfirst hadvance, h.work_advance_lt ht hadvance⟩
  · have hsome := hfuel stored hstage
    rw [hnone] at hsome
    cases hsome

end Runner

/-- A runner's progress, the activities that arrived, in the order of their tickets, and
the tickets of the turns that were dropped under way. -/
structure Course (σ : Type) where
  progress : Progress σ
  arrived : List Activity := []
  dropped : List Nat := []

namespace Course
variable {σ : Type}

def start (kept : σ) : Course σ := { progress := { kept } }

def move (r : Runner σ) (s : Course σ) : Move → Course σ
  | .arrive a => { s with progress := (s.progress.arrive a).2, arrived := s.arrived ++ [a] }
  | .step ticket fuel => { s with progress := { r with fuel }.step ticket s.progress }
  | .abandon ticket =>
    { s with
      progress := s.progress.abandon ticket
      dropped := if (s.progress.task? ticket).isSome then s.dropped ++ [ticket] else s.dropped }

def run (r : Runner σ) (s : Course σ) (moves : List Move) : Course σ := moves.foldl (move r) s

theorem run_append (r : Runner σ) (s : Course σ) (moves more : List Move) :
    run r s (moves ++ more) = run r (run r s moves) more := List.foldl_append

/-- The ticket is that of a turn of the conversation. -/
def belongs (s : Course σ) (c : String) (ticket : Nat) : Bool :=
  s.arrived[ticket]?.any fun a => a.conversation = c

/-- The turns of a conversation that were not dropped, in the order of their arrival. -/
def survivors (s : Course σ) (c : String) : List Nat :=
  (List.range s.arrived.length).filter fun n => s.belongs c n && !s.dropped.contains n

def activities (s : Course σ) (tickets : List Nat) : List Activity :=
  tickets.filterMap (s.arrived[·]?)

theorem gated_move {s : Course σ} (h : s.progress.Gated) (r : Runner σ) (m : Move) :
    (s.move r m).progress.Gated := by
  cases m with
  | arrive a => exact h.arrive a
  | abandon ticket => exact h.abandon ticket
  | step ticket fuel =>
    rcases Runner.step_cases { r with fuel } h ticket with hsame | ⟨t, ht, -, hfirst, hadvance⟩
    · simpa only [move, hsame] using h
    · exact h.advance ht hfirst hadvance

theorem gated_run {s : Course σ} (h : s.progress.Gated) (r : Runner σ) (moves : List Move) :
    (s.run r moves).progress.Gated := by
  induction moves generalizing s with
  | nil => exact h
  | cons m rest ih => exact ih (gated_move h r m)

/-- Turns that answer can all be brought to their ends: nobody waits for ever. -/
theorem exists_completion {s : Course σ} (h : s.progress.Gated) (r : Runner σ)
    (hhalts : ∀ a stored, ∃ fuel, (r.host.respond fuel a stored).isSome) :
    ∃ steps : List (Nat × Nat),
      (s.run r (steps.map fun (ticket, fuel) => .step ticket fuel)).progress.tasks = [] := by
  induction hwork : s.progress.work using Nat.strongRecOn generalizing s with
  | ind work ih =>
    by_cases hunder : s.progress.tasks = []
    · exact ⟨[], hunder⟩
    · obtain ⟨ticket, fuel, hgated, hless⟩ := r.exists_step h hhalts hunder
      obtain ⟨steps, hsteps⟩ :=
        ih _ (hwork ▸ hless) (s := s.move r (.step ticket fuel)) hgated rfl
      exact ⟨(ticket, fuel) :: steps, hsteps⟩

/-! ## What a runner does is a sequence of moves -/

theorem exists_poll (r : Runner σ) (ticket : Nat) (s : Course σ) : ∃ moves,
    s.run r moves = { s with progress := r.poll ticket s.progress } := by
  unfold Runner.poll
  by_cases hsuspends : r.suspends = true
  · exact ⟨[.step ticket r.fuel], by rw [if_pos hsuspends]; rfl⟩
  · exact ⟨[.step ticket r.fuel, .step ticket r.fuel, .step ticket r.fuel],
      by rw [if_neg hsuspends]; rfl⟩

theorem exists_start (r : Runner σ) (a : Activity) (s : Course σ) : ∃ moves,
    s.run r moves =
      { s with progress := (r.start a s.progress).2, arrived := s.arrived ++ [a] } := by
  obtain ⟨moves, hmoves⟩ := exists_poll r s.progress.tickets (s.move r (.arrive a))
  exact ⟨.arrive a :: moves, hmoves⟩

theorem exists_rounds (r : Runner σ) (n : Nat) (s : Course σ) : ∃ moves,
    s.run r moves = { s with progress := r.rounds n s.progress } := by
  have hround (tasks : List Task) (s : Course σ) : ∃ moves, s.run r moves =
      { s with progress := tasks.foldl (fun p task => r.poll task.ticket p) s.progress } := by
    induction tasks generalizing s with
    | nil => exact ⟨[], rfl⟩
    | cons task rest ih =>
      obtain ⟨first, hfirst⟩ := exists_poll r task.ticket s
      obtain ⟨others, hothers⟩ := ih { s with progress := r.poll task.ticket s.progress }
      exact ⟨first ++ others, by rw [run_append, hfirst, hothers]; rfl⟩
  induction n generalizing s with
  | zero => exact ⟨[], rfl⟩
  | succ n ih =>
    obtain ⟨first, hfirst⟩ := hround s.progress.tasks s
    obtain ⟨others, hothers⟩ := ih _
    exact ⟨first ++ others, by rw [run_append, hfirst, hothers]; rfl⟩

/-- Turns started together and run to their ends go through a course in which they all
arrive in that order and none is dropped. -/
theorem exists_runAll (r : Runner σ) (as : List Activity) (s : Course σ) : ∃ moves,
    s.run r moves =
      { s with progress := (r.runAll as s.progress).2, arrived := s.arrived ++ as } := by
  have hstarts (as : List Activity) (tickets : List Nat) (s : Course σ) : ∃ moves, s.run r moves =
      { s with
        progress := (as.foldl (fun started a =>
          (started.1 ++ [(r.start a started.2).1], (r.start a started.2).2))
          (tickets, s.progress)).2
        arrived := s.arrived ++ as } := by
    induction as generalizing s tickets with
    | nil => exact ⟨[], by simp [run]⟩
    | cons a rest ih =>
      obtain ⟨first, hfirst⟩ := exists_start r a s
      obtain ⟨others, hothers⟩ := ih (tickets ++ [(r.start a s.progress).1])
        { s with progress := (r.start a s.progress).2, arrived := s.arrived ++ [a] }
      refine ⟨first ++ others, ?_⟩
      rw [run_append, hfirst, hothers]
      simp
  obtain ⟨first, hfirst⟩ := hstarts as [] s
  obtain ⟨others, hothers⟩ := exists_rounds r _ _
  exact ⟨first ++ others, by rw [run_append, hfirst, hothers]; rfl⟩

end Course
end Colloquy
