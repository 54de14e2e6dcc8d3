import Colloquy.Runner
import Mathlib.Data.List.Nodup

/-!
# The gates of conversations

The turns under way in a conversation stand in line at one gate, in the order of
their arrival, and the first of them is inside. This holds of a runner whatever
happens next: a turn arrives, goes a step, ends or is dropped. Only a turn that is
inside has begun, so no two turns of a conversation are under way together.
-/
namespace Colloquy

namespace Gate

/-- The gate at which turns stand in line; the first of them is inside. -/
def ofLine (line : List Nat) : Gate := { holder := line.head?, queue := line.tail }

theorem join_ofLine (line : List Nat) (ticket : Nat) :
    (ofLine line).join ticket = ofLine (line ++ [ticket]) := by
  cases line <;> rfl

theorem leave_ofLine (line : List Nat) (ticket : Nat) :
    (ofLine line).leave ticket = ofLine (line.erase ticket) := by
  cases line with
  | nil => rfl
  | cons first rest =>
    by_cases h : first = ticket
    · simp [leave, ofLine, h]
    · simp [leave, ofLine, h]

end Gate

namespace Task

def conversation (t : Task) : String := t.activity.conversation

/-- The turn is between its loading and its saving. -/
def HasLoaded (t : Task) : Prop := t.stage ≠ .loading

end Task

namespace Progress
variable {σ : Type}

/-- The turns under way in a conversation, in the order of their arrival. -/
def line (p : Progress σ) (c : String) : List Nat :=
  (p.tasks.filter fun t => t.conversation = c).map Task.ticket

/-- The tickets in use: of turns that ended, and of turns under way. -/
def seen (p : Progress σ) : List Nat :=
  p.finished.map Finished.ticket ++ p.tasks.map Task.ticket

/-- What holds of turns and gates at every moment. -/
structure Gated (p : Progress σ) : Prop where
  distinct : p.seen.Nodup
  below : ∀ n ∈ p.seen, n < p.tickets
  registered : ∀ t ∈ p.tasks, p.register.find? t.conversation = some t.gate
  busy : ∀ c g, p.register.find? c = some g → p.line c ≠ []
  gate : ∀ c g, p.register.find? c = some g → p.gates[g]? = some (.ofLine (p.line c))
  apart : ∀ c c' g, p.register.find? c = some g → p.register.find? c' = some g → c = c'
  first : ∀ t ∈ p.tasks, t.HasLoaded → (p.line t.conversation).head? = some t.ticket

theorem gated_initial (kept : σ) : ({ kept } : Progress σ).Gated where
  distinct := .nil
  below := List.forall_mem_nil _
  registered := fun _ ht => absurd ht List.not_mem_nil
  busy := fun _ _ hg => by cases hg
  gate := fun _ _ hg => by cases hg
  apart := fun _ _ _ hg => by cases hg
  first := fun _ ht => absurd ht List.not_mem_nil

theorem mem_line {p : Progress σ} {t : Task} (ht : t ∈ p.tasks) :
    t.ticket ∈ p.line t.conversation :=
  List.mem_map_of_mem (List.mem_filter.mpr ⟨ht, by simp⟩)

theorem mem_seen_of_line {p : Progress σ} {c : String} {n : Nat} (hn : n ∈ p.line c) :
    n ∈ p.seen := by
  obtain ⟨t, ht, rfl⟩ := List.mem_map.mp hn
  exact List.mem_append_right _ (List.mem_map_of_mem (List.mem_filter.mp ht).1)

theorem mem_of_task? {p : Progress σ} {ticket : Nat} {t : Task}
    (h : p.task? ticket = some t) : t ∈ p.tasks ∧ t.ticket = ticket := by
  have hticket := List.find?_some h
  exact ⟨List.mem_of_find?_eq_some h, eq_of_beq hticket⟩

namespace Gated
variable {p : Progress σ} (h : p.Gated)
include h

theorem nodup_tasks : (p.tasks.map Task.ticket).Nodup := h.distinct.of_append_right

theorem nodup_line (c : String) : (p.line c).Nodup :=
  h.nodup_tasks.sublist (List.filter_sublist.map _)

theorem task_eq {t u : Task} (ht : t ∈ p.tasks) (hu : u ∈ p.tasks)
    (htu : t.ticket = u.ticket) : t = u :=
  List.inj_on_of_nodup_map h.nodup_tasks ht hu htu

/-- A turn under way has not ended. -/
theorem not_finished {t : Task} (ht : t ∈ p.tasks) :
    t.ticket ∉ p.finished.map Finished.ticket := by
  intro hmem
  exact List.disjoint_of_nodup_append h.distinct hmem (List.mem_map_of_mem ht)

/-- The turn inside is the first in line. -/
theorem isInside_iff {t : Task} (ht : t ∈ p.tasks) :
    p.isInside t = true ↔ (p.line t.conversation).head? = some t.ticket := by
  have hgate := h.gate _ _ (h.registered t ht)
  simp [isInside, hgate, Gate.ofLine]

/-- No two turns of one conversation are between their loading and their saving. -/
theorem exclusive {t u : Task} (ht : t ∈ p.tasks) (hu : u ∈ p.tasks)
    (hc : t.conversation = u.conversation) (hloaded : t.HasLoaded) (hloaded' : u.HasLoaded) :
    t = u := by
  have htfirst := h.first t ht hloaded
  have hufirst := h.first u hu hloaded'
  rw [hc, hufirst] at htfirst
  exact h.task_eq ht hu (Option.some.inj htfirst).symm

theorem line_eq_nil {c : String} (hnone : p.register.find? c = none) : p.line c = [] := by
  have hno : ∀ t ∈ p.tasks, ¬ t.conversation = c := by
    intro t ht hc
    have hsome := h.registered t ht
    rw [hc, hnone] at hsome
    cases hsome
  simpa [line] using hno

end Gated

/-! ## Arriving -/

section
variable (p : Progress σ) (c : String)

@[simp] theorem gateOf_tasks : (p.gateOf c).2.tasks = p.tasks := by
  unfold gateOf; split <;> rfl

@[simp] theorem gateOf_finished : (p.gateOf c).2.finished = p.finished := by
  unfold gateOf; split <;> rfl

@[simp] theorem gateOf_kept : (p.gateOf c).2.kept = p.kept := by
  unfold gateOf; split <;> rfl

/-- Opening a gate if need be registers it for that conversation only, and the turns
under way there stand in line at it. -/
theorem Gated.gateOf {p : Progress σ} (h : p.Gated) (c : String) :
    (∀ k, (p.gateOf c).2.register.find? k =
      if k = c then some (p.gateOf c).1 else p.register.find? k) ∧
    (∀ g, p.register.find? c = some g → g = (p.gateOf c).1) ∧
    (p.gateOf c).2.gates[(p.gateOf c).1]? = some (.ofLine (p.line c)) ∧
    ∀ k g, k ≠ c → p.register.find? k = some g →
      g ≠ (p.gateOf c).1 ∧ (p.gateOf c).2.gates[g]? = p.gates[g]? := by
  cases hfind : p.register.find? c with
  | some g =>
    have hsame : p.gateOf c = (g, p) := by simp [Progress.gateOf, hfind]
    rw [hsame]
    refine ⟨fun k => ?_, fun g' hg' => (Option.some.inj hg').symm, h.gate c g hfind, ?_⟩
    · by_cases hk : k = c
      · simp [hk, hfind]
      · simp [hk]
    · intro k g' hk hg'
      refine ⟨?_, rfl⟩
      rintro rfl
      exact hk (h.apart k c g' hg' hfind)
  | none =>
    have hnew : p.gateOf c = (p.gates.length,
        { p with gates := p.gates ++ [{}], register := p.register.insert c p.gates.length }) := by
      simp [Progress.gateOf, hfind]
    rw [hnew]
    refine ⟨fun k => by simp, ?_, ?_, fun k g' hk hg' => ?_⟩
    · rintro _ ⟨⟩
    · simp [h.line_eq_nil hfind, Gate.ofLine]
    · have hlt : g' < p.gates.length := (List.getElem?_eq_some_iff.mp (h.gate k g' hg')).1
      exact ⟨Nat.ne_of_lt hlt, List.getElem?_append_left hlt⟩

@[simp] theorem arrive_tasks (a : Activity) : (p.arrive a).2.tasks =
    p.tasks ++ [{ ticket := p.tickets, activity := a, gate := (p.gateOf a.conversation).1 }] := by
  simp [arrive]

@[simp] theorem arrive_finished (a : Activity) : (p.arrive a).2.finished = p.finished := by
  simp [arrive]

@[simp] theorem arrive_kept (a : Activity) : (p.arrive a).2.kept = p.kept := by simp [arrive]

@[simp] theorem arrive_tickets (a : Activity) : (p.arrive a).2.tickets = p.tickets + 1 := rfl

@[simp] theorem arrive_seen (a : Activity) : (p.arrive a).2.seen = p.seen ++ [p.tickets] := by
  simp [seen]

theorem arrive_line (a : Activity) : (p.arrive a).2.line c =
    p.line c ++ if a.conversation = c then [p.tickets] else [] := by
  by_cases hc : a.conversation = c <;> simp [line, Task.conversation, hc]

end

theorem Gated.arrive {p : Progress σ} (h : p.Gated) (a : Activity) : (p.arrive a).2.Gated := by
  obtain ⟨hregister, hheld, hgate, hothers⟩ := h.gateOf a.conversation
  have hfind (k : String) : (p.arrive a).2.register.find? k =
      if k = a.conversation then some (p.gateOf a.conversation).1 else p.register.find? k :=
    hregister k
  have hgates : (p.arrive a).2.gates =
      (p.gateOf a.conversation).2.gates.modify (p.gateOf a.conversation).1 (·.join p.tickets) := rfl
  have hnew : p.tickets ∉ p.seen := fun hmem => Nat.lt_irrefl _ (h.below _ hmem)
  constructor
  case distinct =>
    rw [arrive_seen]
    exact List.nodup_append'.mpr ⟨h.distinct, List.nodup_singleton _, by simpa using hnew⟩
  case below =>
    intro n hn
    rw [arrive_seen, List.mem_append, List.mem_singleton] at hn
    rw [arrive_tickets]
    rcases hn with hold | rfl
    · have := h.below n hold
      omega
    · omega
  case registered =>
    intro t ht
    rw [arrive_tasks, List.mem_append, List.mem_singleton] at ht
    rw [hfind]
    rcases ht with hold | rfl
    · have hreg := h.registered t hold
      split
      · next hc => rw [hheld t.gate (hc ▸ hreg)]
      · exact hreg
    · simp [Task.conversation]
  case busy =>
    intro c g hg
    rw [arrive_line]
    rw [hfind] at hg
    split at hg
    · next hc => simp [hc]
    · next hc => simp [h.busy c g hg]
  case gate =>
    intro c g hg
    rw [hgates, arrive_line]
    rw [hfind] at hg
    split at hg
    · next hc =>
      subst hc
      cases hg
      simp [hgate, Gate.join_ofLine]
    · next hc =>
      obtain ⟨hne, hkeep⟩ := hothers c g hc hg
      simp [Ne.symm hne, hkeep, h.gate c g hg, Ne.symm hc]
  case apart =>
    intro c c' g hg hg'
    rw [hfind] at hg hg'
    split at hg <;> split at hg'
    · next hc hc' => rw [hc, hc']
    · next hc hc' => exact absurd (Option.some.inj hg).symm (hothers c' g hc' hg').1
    · next hc hc' => exact absurd (Option.some.inj hg').symm (hothers c g hc hg).1
    · exact h.apart c c' g hg hg'
  case first =>
    intro t ht hloaded
    rw [arrive_tasks, List.mem_append, List.mem_singleton] at ht
    rcases ht with hold | rfl
    · rw [arrive_line, List.head?_append, h.first t hold hloaded]
      rfl
    · exact absurd rfl hloaded

/-! ## Going -/

@[simp] theorem release_tasks (p : Progress σ) (t : Task) :
    (p.release t).tasks = p.tasks.filter fun u => u.ticket ≠ t.ticket := rfl

@[simp] theorem release_finished (p : Progress σ) (t : Task) :
    (p.release t).finished = p.finished := rfl

@[simp] theorem release_kept (p : Progress σ) (t : Task) : (p.release t).kept = p.kept := rfl

@[simp] theorem release_tickets (p : Progress σ) (t : Task) :
    (p.release t).tickets = p.tickets := rfl

namespace Gated
variable {p : Progress σ} (h : p.Gated)
include h

theorem release_line (t : Task) (c : String) :
    (p.release t).line c = (p.line c).erase t.ticket := by
  rw [(h.nodup_line c).erase_eq_filter]
  simp only [line, release_tasks, List.filter_filter, List.filter_map]
  congr 1
  apply List.filter_congr
  intro u _
  rw [Bool.and_comm, decide_not]
  rfl

/-- A turn stands in the line of its own conversation only. -/
theorem not_mem_line {t : Task} (ht : t ∈ p.tasks) {c : String} (hc : c ≠ t.conversation) :
    t.ticket ∉ p.line c := by
  intro hmem
  obtain ⟨u, hu, hticket⟩ := List.mem_map.mp hmem
  obtain ⟨hu, huc⟩ := List.mem_filter.mp hu
  rw [h.task_eq hu ht hticket] at huc
  exact hc (of_decide_eq_true huc).symm

/-- A conversation's gate is struck off when the last of its turns goes. -/
theorem release_find? {t : Task} (ht : t ∈ p.tasks) (k : String) :
    (p.release t).register.find? k =
      if k = t.conversation ∧ (p.release t).line k = [] then none else p.register.find? k := by
  have hreg := h.registered t ht
  have hheld : (p.release t).tasks.any (fun u => u.gate = t.gate) =
      !((p.release t).line t.conversation).isEmpty := by
    rw [Bool.eq_iff_iff, List.any_eq_true, Bool.not_eq_true', List.isEmpty_eq_false_iff]
    constructor
    · rintro ⟨u, hu, hgate⟩
      have hureg := h.registered u (List.mem_filter.mp hu).1
      rw [of_decide_eq_true hgate] at hureg
      rw [← h.apart _ _ _ hureg hreg]
      exact List.ne_nil_of_mem (mem_line hu)
    · intro hne
      obtain ⟨n, hn⟩ := List.exists_mem_of_ne_nil _ hne
      obtain ⟨u, hu, -⟩ := List.mem_map.mp hn
      obtain ⟨hu, huc⟩ := List.mem_filter.mp hu
      have hureg := h.registered u (List.mem_filter.mp hu).1
      rw [of_decide_eq_true huc, hreg] at hureg
      exact ⟨u, hu, by simp [Option.some.inj hureg]⟩
  have hstruck : (p.release t).register = if ((p.release t).line t.conversation).isEmpty
      then p.register.erase t.conversation else p.register := by
    have hunfold : (p.release t).register = if (p.release t).tasks.any (fun u => u.gate = t.gate)
        then p.register else p.register.erase t.conversation := by
      have hown : p.register.find? t.activity.conversation = some t.gate := hreg
      simp only [Progress.release, hown]
      rfl
    rw [hunfold, hheld]
    cases ((p.release t).line t.conversation).isEmpty <;> rfl
  rw [hstruck]
  by_cases hempty : (p.release t).line t.conversation = []
  · by_cases hk : k = t.conversation <;> simp [hk, hempty]
  · by_cases hk : k = t.conversation <;> simp [hk, hempty]

theorem release {t : Task} (ht : t ∈ p.tasks) : (p.release t).Gated := by
  have hfind := h.release_find? ht
  have hold {k : String} {g : Nat} (hg : (p.release t).register.find? k = some g) :
      p.register.find? k = some g := by
    rw [hfind] at hg
    split at hg
    · cases hg
    · exact hg
  have hseen : (p.release t).seen.Sublist p.seen :=
    (List.Sublist.refl _).append (List.filter_sublist.map _)
  constructor
  case distinct => exact h.distinct.sublist hseen
  case below => exact fun n hn => h.below n (hseen.subset hn)
  case registered =>
    intro u hu
    rw [hfind, if_neg (fun hc => List.ne_nil_of_mem (mem_line hu) hc.2)]
    exact h.registered u (List.mem_filter.mp hu).1
  case busy =>
    intro c g hg hempty
    by_cases hc : c = t.conversation
    · rw [hfind, if_pos ⟨hc, hempty⟩] at hg
      cases hg
    · rw [h.release_line, List.erase_of_not_mem (h.not_mem_line ht hc)] at hempty
      exact h.busy c g (hold hg) hempty
  case gate =>
    intro c g hg
    have hgate := h.gate c g (hold hg)
    have hgates : (p.release t).gates = p.gates.modify t.gate (·.leave t.ticket) := rfl
    rw [hgates, h.release_line]
    by_cases hc : c = t.conversation
    · have hsame : g = t.gate := by
        have hreg := h.registered t ht
        rw [← hc, hold hg] at hreg
        exact Option.some.inj hreg
      subst hsame
      simp [hgate, Gate.leave_ofLine]
    · have hne : t.gate ≠ g := by
        rintro rfl
        exact hc (h.apart _ _ _ (hold hg) (h.registered t ht))
      rw [List.erase_of_not_mem (h.not_mem_line ht hc)]
      simp [hne, hgate]
  case apart => exact fun c c' g hg hg' => h.apart c c' g (hold hg) (hold hg')
  case first =>
    intro u hu hloaded
    obtain ⟨hu, hne⟩ := List.mem_filter.mp hu
    have hfirst := h.first u hu hloaded
    rw [h.release_line]
    cases hline : p.line u.conversation with
    | nil => simp [hline] at hfirst
    | cons n rest =>
      have hn : n = u.ticket := by simpa [hline] using hfirst
      have hother : u.ticket ≠ t.ticket := of_decide_eq_true hne
      simp [hn, hother]

/-- The end of a turn may be written down when its ticket is free. -/
theorem record {f : Finished} (hlt : f.ticket < p.tickets) (hfree : f.ticket ∉ p.seen) :
    ({ p with finished := p.finished ++ [f] } : Progress σ).Gated := by
  have hseen : ({ p with finished := p.finished ++ [f] } : Progress σ).seen.Perm
      (f.ticket :: p.seen) := by
    simp only [seen, List.map_append, List.map_cons, List.map_nil, List.append_assoc,
      List.singleton_append]
    exact List.perm_middle
  exact {
    distinct := hseen.nodup_iff.mpr (List.nodup_cons.mpr ⟨hfree, h.distinct⟩)
    below := fun n hn => by
      rcases List.mem_cons.mp (hseen.mem_iff.mp hn) with rfl | hold
      · exact hlt
      · exact h.below n hold
    registered := h.registered
    busy := h.busy
    gate := h.gate
    apart := h.apart
    first := h.first }

theorem finish {t : Task} (ht : t ∈ p.tasks) (outcome : Except Fault Outcome)
    (journal : List Entry) : (p.finish t outcome journal).Gated := by
  refine (h.release ht).record (h.below _ (mem_seen_of_line (mem_line ht))) ?_
  intro hmem
  rcases List.mem_append.mp hmem with hmem | hmem
  · exact h.not_finished ht hmem
  · obtain ⟨u, hu, hticket⟩ := List.mem_map.mp hmem
    simp [hticket] at hu

theorem abandon (ticket : Nat) : (p.abandon ticket).Gated := by
  unfold Progress.abandon
  cases htask : p.task? ticket with
  | none => exact h
  | some t => exact h.release (mem_of_task? htask).1

end Gated

/-! ## Going on -/

@[simp] theorem setStage_line (p : Progress σ) (ticket : Nat) (stage : Stage) (c : String) :
    (p.setStage ticket stage).line c = p.line c := by
  unfold line setStage
  induction p.tasks with
  | nil => rfl
  | cons t rest ih =>
    by_cases ht : t.ticket = ticket <;> by_cases hc : t.conversation = c <;>
      simp_all [Task.conversation]

theorem setStage_seen (p : Progress σ) (ticket : Nat) (stage : Stage) :
    (p.setStage ticket stage).seen = p.seen := by
  have hticket : (fun t : Task => (if t.ticket = ticket then { t with stage } else t).ticket) =
      Task.ticket := by
    funext t
    split <;> rfl
  simp only [seen, setStage, List.map_map]
  exact congrArg (p.finished.map Finished.ticket ++ ·) (congrArg (p.tasks.map ·) hticket)

/-- A turn whose stage was set is one that was under way, with that stage if it is the
turn in question. -/
theorem mem_setStage {p : Progress σ} {ticket : Nat} {stage : Stage} {u : Task}
    (hu : u ∈ (p.setStage ticket stage).tasks) : ∃ t ∈ p.tasks, t.ticket = u.ticket ∧
      t.activity = u.activity ∧ t.gate = u.gate ∧
      u.stage = if t.ticket = ticket then stage else t.stage := by
  obtain ⟨t, ht, rfl⟩ := List.mem_map.mp hu
  refine ⟨t, ht, ?_⟩
  split <;> simp

/-- The turn inside goes on. -/
theorem Gated.setStage {p : Progress σ} (h : p.Gated) {t : Task}
    (hfirst : (p.line t.conversation).head? = some t.ticket) (ht : t ∈ p.tasks) (stage : Stage) :
    (p.setStage t.ticket stage).Gated where
  distinct := by rw [setStage_seen]; exact h.distinct
  below := by rw [setStage_seen]; exact h.below
  registered := by
    intro u hu
    obtain ⟨v, hv, -, hactivity, hgate, -⟩ := mem_setStage hu
    have hreg := h.registered v hv
    rwa [Task.conversation, hactivity, hgate] at hreg
  busy := fun c g hg => by
    rw [setStage_line]
    exact h.busy c g hg
  gate := fun c g hg => by
    rw [setStage_line]
    exact h.gate c g hg
  apart := h.apart
  first := by
    intro u hu hloaded
    obtain ⟨v, hv, hticket, hactivity, -, hstage⟩ := mem_setStage hu
    have hc : u.conversation = v.conversation := by simp [Task.conversation, hactivity]
    rw [setStage_line, hc, ← hticket]
    by_cases hsame : v.ticket = t.ticket
    · rw [h.task_eq hv ht hsame]
      exact hfirst
    · rw [if_neg hsame] at hstage
      exact h.first v hv (fun hload => hloaded (hstage.trans hload))

end Progress
end Colloquy
