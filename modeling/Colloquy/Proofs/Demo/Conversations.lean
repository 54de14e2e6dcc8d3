import Colloquy.Proofs.Demo.Turns
import Colloquy.Proofs.Runner.Alone

/-!
# The demo conversation from turn to turn

Between turns the conversation is over or asks one of its two questions, with what was
answered so far both in the profile's memory and in the user's object. Every turn keeps it
so, whatever the activity. So no turn fails, and a conversation that completes does so with
what the user's object says.
-/
namespace Colloquy

/-- The runner runs the demo conversation over the store in memory, with enough fuel. -/
structure Runner.RunsDemo (r : Runner (Table Snapshot)) : Prop where
  host : r.host.RunsDemo
  store : r.store = .memory
  fuel : 5 ≤ r.fuel

namespace Console.Demo
open Engine Eval

/-- The stack on which a prompt is asked. -/
def asking (id : String) (m mp : Object) : Stack :=
  [{ Frame.owning rootId with children := [card id m, card profileId mp] }]

/-- How the conversation stands between turns, with what is kept of the user. -/
inductive Standing (user : Object) : Stack → Prop where
  | idle : Standing user []
  | asksName {m mp : Object} {o : PromptOptions} (hm : Asked m o) (hmp : Stepped mp 0 .empty) :
      Standing user (asking nameId m mp)
  | asksNewsletter {m mp : Object} {o : PromptOptions} {name : String} (hm : Asked m o)
      (hmp : Stepped mp 1 (Table.empty.insert "name" (.string name)))
      (hname : user.find? "name" = some (.string name)) (hproper : ProperName name) :
      Standing user (asking newsletterId m mp)

/-- The result of a conversation: the answers to both questions. -/
def answers (name : String) (subscribed : Bool) : Json :=
  .ofFields [("name", .string name), ("newsletter", .bool subscribed)]

/-- The result holds the answers that are kept in the user's object. -/
def Agrees (user : Object) (result : Option Json) : Prop :=
  ∃ name subscribed, result = some (answers name subscribed) ∧ ProperName name ∧
    user.find? "name" = some (.string name) ∧ user.find? "newsletter" = some (.bool subscribed)

/-- What a turn comes to, and how it leaves the conversation. -/
structure Turned (r : TurnResult) (t' : Turn) : Prop where
  standing : Standing t'.user t'.stack
  waiting : r.status = .waiting ↔ t'.stack ≠ []
  completed : r.status = .completed → Agrees t'.user r.result

variable {host : Host} {t : Turn} {u : Stack} {m mp : Object} {o : PromptOptions} {name : String}

theorem turned_waiting {t' : Turn} (hstanding : Standing t'.user t'.stack)
    (hrunning : t'.stack ≠ []) : Turned .waiting t' where
  standing := hstanding
  waiting := iff_of_true rfl hrunning
  completed := fun h => by cases h

theorem turned_cancelled (t' : Turn) : Turned .cancelled (t'.running []) where
  standing := .idle
  waiting := iff_of_false (fun h => by cases h) (fun h => h rfl)
  completed := fun h => by cases h

/-- What a turn without an answer comes to, if the question may still be asked. -/
theorem turn_without_answer_turned {id : String} {p : Prompt} (h : host.RunsDemo)
    (hp : inside.find? id = some p.dialog) (hm : Asked m o)
    (hstill : ∀ (t' : Turn) m', t'.user = t.user → Asked m' o →
      Standing t'.user (asking id m' mp))
    (hanswer : SaysWord t.activity ∨ Leaves p t.activity) (k : Nat) :
    ∃ r t', (host.runStack (k + 5) t.activity.toJson).Answers (t.running (asking id m mp))
      (.ok r) t' ∧ Turned r t' := by
  have hclose : ∀ f ∈ [card id m, card profileId mp], Closable f := by
    intro f hf
    rcases List.mem_cons.mp hf with rfl | hrest
    · exact ⟨p.dialog, hp, fun _ => rfl⟩
    · obtain rfl := List.mem_singleton.mp hrest
      exact ⟨profile.dialog, rfl, fun _ => rfl⟩
  obtain ⟨t', huser, hturn⟩ := turn_without_answer h hp hm hclose (Nat.le_refl 1) hanswer k
  rcases hturn with ⟨m', hm', hwaits⟩ | hcancelled
  · exact ⟨_, _, hwaits, turned_waiting (hstill t' m' huser hm') (List.cons_ne_nil _ _)⟩
  · exact ⟨_, _, hcancelled, turned_cancelled t'⟩

/-- A conversation that is over begins anew. -/
theorem turn_over (h : host.RunsDemo) (hsettings : Greets t.settings) (k : Nat) :
    ∃ r t', (host.runStack (k + 5) t.activity.toJson).Answers (t.running []) (.ok r) t' ∧
      Turned r t' := by
  obtain ⟨o, m, t', hm, -, hbegins⟩ := root_begins (k := k + 2) hsettings
  have hstanding : Standing t'.user (asking nameId m blank) := .asksName hm blank_stepped
  exact ⟨_, hosting t' [card nameId m, card profileId blank], answers_runStack_idle h hbegins,
    turned_waiting hstanding (List.cons_ne_nil _ _)⟩

/-- A name is kept for the user, and the second question is asked. -/
theorem turn_name (h : host.RunsDemo) (hm : Asked m o) (hmp : Stepped mp 0 .empty)
    (hword : ¬ SaysWord t.activity) (hproper : ProperName name)
    (htakes : Takes namePrompt t.activity (.string name)) (k : Nat) :
    ∃ r t', (host.runStack (k + 5) t.activity.toJson).Answers (t.running (asking nameId m mp))
      (.ok r) t' ∧ Turned r t' := by
  obtain ⟨hhelp, hcancel⟩ := not_or.mp hword
  obtain ⟨o', m', mp', t', hm', hmp', huser, hresumes⟩ :=
    profile_takes_name hmp t name (k + 1)
  have hadvance := advance_with_answer find?_name hm htakes hresumes
  have hname : t'.user.find? "name" = some (.string name) := by rw [huser]; simp
  have hstanding : Standing t'.user (asking newsletterId m' mp') :=
    .asksNewsletter hm' hmp' hname hproper
  exact ⟨_, _, answers_runStack_advance h find?_name hhelp hcancel Status.noConfusion
    (root_waits hadvance), turned_waiting hstanding (List.cons_ne_nil _ _)⟩

/-- A yes or a no is kept for the user, and the conversation completes. -/
theorem turn_newsletter {subscribed : Bool} (h : host.RunsDemo) (hm : Asked m o)
    (hmp : Stepped mp 1 (Table.empty.insert "name" (.string name)))
    (hname : t.user.find? "name" = some (.string name)) (hproper : ProperName name)
    (hword : ¬ SaysWord t.activity)
    (htakes : Takes newsletterPrompt t.activity (.bool subscribed)) (k : Nat) :
    ∃ r t', (host.runStack (k + 5) t.activity.toJson).Answers
      (t.running (asking newsletterId m mp)) (.ok r) t' ∧ Turned r t' := by
  obtain ⟨hhelp, hcancel⟩ := not_or.mp hword
  obtain ⟨t', huser, hresumes⟩ :=
    profile_takes_newsletter hmp t subscribed (k + 1)
  have hadvance := advance_with_answer find?_newsletter hm htakes hresumes
  have hagrees : Agrees t'.user (some (answers name subscribed)) :=
    ⟨name, subscribed, rfl, hproper, by rw [huser]; simpa using hname, by rw [huser]; simp⟩
  refine ⟨_, _, answers_runStack_advance h find?_newsletter hhelp hcancel
    Status.noConfusion (root_completes hadvance), ?_⟩
  constructor
  case standing => exact .idle
  case waiting => exact iff_of_false (fun h => by cases h) (fun h => h rfl)
  case completed => exact fun _ => hagrees

/-- Every turn goes on from where the one before it left the conversation. -/
theorem turn_turned (h : host.RunsDemo) (hsettings : Greets t.settings)
    (hstanding : Standing t.user u) (k : Nat) :
    ∃ r t', (host.runStack (k + 5) t.activity.toJson).Answers (t.running u) (.ok r) t' ∧
      Turned r t' := by
  cases hstanding with
  | idle => exact turn_over h hsettings k
  | @asksName m mp o hm hmp =>
    have hstill (t' : Turn) (m' : Object) (_ : t'.user = t.user) (hm' : Asked m' o) :
        Standing t'.user (asking nameId m' mp) := .asksName hm' hmp
    by_cases hword : SaysWord t.activity
    · exact turn_without_answer_turned h find?_name hm hstill (.inl hword) k
    rcases name_answered t.activity hword with hleaves | ⟨name, hproper, htakes⟩
    · exact turn_without_answer_turned h find?_name hm hstill (.inr hleaves) k
    · exact turn_name h hm hmp hword hproper htakes k
  | @asksNewsletter m mp o name hm hmp hname hproper =>
    have hstill (t' : Turn) (m' : Object) (huser : t'.user = t.user) (hm' : Asked m' o) :
        Standing t'.user (asking newsletterId m' mp) :=
      .asksNewsletter hm' hmp (huser ▸ hname) hproper
    by_cases hword : SaysWord t.activity
    · exact turn_without_answer_turned h find?_newsletter hm hstill (.inl hword) k
    rcases newsletter_answered t.activity with hleaves | ⟨subscribed, htakes⟩
    · exact turn_without_answer_turned h find?_newsletter hm hstill (.inr hleaves) k
    · exact turn_newsletter h hm hmp hname hproper hword htakes k

/-! ## What is kept -/

/-- What is kept of the conversation lets it go on. -/
def Kept (s : Snapshot) : Prop := ∃ u, s.stack? = some u ∧ Standing s.user u

/-- What is reported of a turn fits what is kept after it. -/
structure Reported (outcome : Outcome) (s : Snapshot) : Prop where
  kept : Kept s
  waiting : outcome.status = .waiting ↔ s.stack? ≠ some []
  completed : outcome.status = .completed → Agrees s.user outcome.result

theorem respond_reported {fuel : Nat} {stored : Snapshot} (h : host.RunsDemo)
    (hsettings : Greets host.settings) (hfuel : 5 ≤ fuel) (hkept : Kept stored) (a : Activity) :
    ∃ outcome snapshot journal,
      host.respond fuel a stored = some { outcome := .ok (outcome, snapshot), journal } ∧
      Reported outcome snapshot := by
  obtain ⟨u, hstack, hstanding⟩ := hkept
  obtain ⟨k, rfl⟩ := Nat.exists_eq_add_of_le' hfuel
  let t := Turn.opening a host.settings stored.user (stored.conversation.erase Turn.stackKey) u
  obtain ⟨r, t', hanswers, hturned⟩ := turn_turned (t := t) h hsettings hstanding k
  obtain ⟨journal, hrespond⟩ := Host.respond_of_answers hstack a hanswers
  refine ⟨_, _, journal, hrespond, ?_⟩
  constructor
  case kept => exact ⟨t'.stack, t'.snapshot_stack?, hturned.standing⟩
  case waiting => simpa using hturned.waiting
  case completed => exact hturned.completed

/-- Nothing is under way, and every conversation can go on. -/
structure Resting (p : Progress (Table Snapshot)) : Prop where
  idle : p.Idle
  kept : ∀ c s, p.kept.find? c = some s → Kept s

theorem resting_initial : Resting { kept := .empty } where
  idle := Progress.idle_initial _
  kept := fun c s hs => by simp at hs

variable {r : Runner (Table Snapshot)} {p : Progress (Table Snapshot)}

theorem runTurn_reported (h : r.RunsDemo) (hsettings : Greets r.host.settings) (hp : Resting p)
    (a : Activity) :
    Resting (r.runTurn a p).2 ∧ ∃ outcome snapshot journal,
      (r.runTurn a p).2.result? (r.runTurn a p).1 = some (.ok outcome, journal) ∧
      (r.runTurn a p).2.kept.find? a.conversation = some snapshot ∧
      Reported outcome snapshot := by
  have hfound : Kept ((p.kept.find? a.conversation).getD {}) := by
    cases hfind : p.kept.find? a.conversation with
    | some s => exact hp.kept _ s hfind
    | none => exact ⟨[], rfl, .idle⟩
  obtain ⟨outcome, snapshot, journal, hrespond, hreported⟩ :=
    respond_reported h.host hsettings h.fuel hfound a
  have hhandle : r.host.handle r.fuel r.store a p.kept =
      some (.ok outcome, journal, p.kept.insert a.conversation snapshot) := by
    rw [h.store]
    exact r.host.handle_memory_ok hrespond
  have hended : (r.runTurn a p).2.EndedAs (r.runTurn a p).1 (.ok outcome, journal) _ :=
    r.runTurn_idle hp.idle hhandle
  have hkept (c : String) (s : Snapshot)
      (hs : (p.kept.insert a.conversation snapshot).find? c = some s) : Kept s := by
    rw [Table.find?_insert] at hs
    split at hs
    · obtain rfl := Option.some.inj hs
      exact hreported.kept
    · exact hp.kept c s hs
  refine ⟨⟨hended.idle, ?_⟩, outcome, snapshot, journal, hended.result, ?_, hreported⟩
  · rw [hended.kept]
    exact hkept
  · rw [hended.kept]
    simp

theorem runEach_resting (h : r.RunsDemo) (hsettings : Greets r.host.settings) (hp : Resting p)
    (as : List Activity) : Resting (r.runEach as p) := by
  induction as generalizing p with
  | nil => exact hp
  | cons a rest ih => exact ih (runTurn_reported h hsettings hp a).1

/-- The frames that run while a prompt is asked, without their memories. -/
def frames (id : String) : Stack :=
  [{ id := rootId, children := [{ id }, { id := profileId }] }]

theorem bare_of_standing {user : Object} (h : Standing user u) :
    Stack.bare u = [] ∨ Stack.bare u = frames nameId ∨ Stack.bare u = frames newsletterId := by
  cases h with
  | idle => exact .inl rfl
  | asksName => exact .inr (.inl rfl)
  | asksNewsletter => exact .inr (.inr rfl)

/-- The demo conversation never fails. A runner that begins with an empty store and was
given any activities, one after another, answers the next one. Then the conversation is over
or asks one of its two questions, and waits exactly if it asks one. If it has completed, its
result holds a proper name and the answer about the newsletter, as the user's object does. -/
theorem runTurn_invariant (h : r.RunsDemo) (hsettings : Greets r.host.settings)
    (earlier : List Activity) (a : Activity) :
    let next := r.runTurn a (r.runEach earlier { kept := .empty })
    ∃ outcome journal snapshot stack,
      next.2.result? next.1 = some (.ok outcome, journal) ∧
      next.2.kept.find? a.conversation = some snapshot ∧ snapshot.stack? = some stack ∧
      (Stack.bare stack = [] ∨ Stack.bare stack = frames nameId ∨
        Stack.bare stack = frames newsletterId) ∧
      (outcome.status = .waiting ↔ stack ≠ []) ∧
      (outcome.status = .completed → ∃ name subscribed,
        outcome.result = some (answers name subscribed) ∧ ProperName name ∧
        snapshot.user.find? "name" = some (.string name) ∧
        snapshot.user.find? "newsletter" = some (.bool subscribed)) := by
  intro next
  have hresting := runEach_resting h hsettings resting_initial earlier
  obtain ⟨-, outcome, snapshot, journal, hresult, hkept, hreported⟩ :=
    runTurn_reported h hsettings hresting a
  obtain ⟨stack, hstack, hstanding⟩ := hreported.kept
  have hwaiting := hreported.waiting
  rw [hstack, Ne, Option.some.injEq] at hwaiting
  exact ⟨outcome, journal, snapshot, stack, hresult, hkept, hstack, bare_of_standing hstanding,
    hwaiting, hreported.completed⟩

/-- Runs the demo conversation with barely enough fuel. -/
def demonstration : Runner (Table Snapshot) :=
  { host := { dialogs, root := rootId }, fuel := 5, store := .memory }

/-- The last of three messages completes the conversation with a proper name. -/
theorem runTurn_invariant_completed :
    let next := demonstration.runTurn (.message "c" "Yes!")
      (demonstration.runEach [.message "c" "hi", .message "c" " Ada "] { kept := .empty })
    ∃ outcome journal name subscribed,
      next.2.result? next.1 = some (.ok outcome, journal) ∧ outcome.status = .completed ∧
      outcome.result = some (answers name subscribed) ∧ ProperName name := by
  intro next
  have hstatus : (next.2.result? next.1).map (fun record => record.1.toOption.map Outcome.status) =
      some (some .completed) := by decide +kernel
  have hsettings : Greets demonstration.host.settings := fun value hvalue => by cases hvalue
  obtain ⟨outcome, journal, snapshot, stack, hresult, -, -, -, -, hcompleted⟩ :=
    runTurn_invariant (r := demonstration) ⟨⟨rfl, rfl⟩, rfl, Nat.le_refl 5⟩ hsettings
      [.message "c" "hi", .message "c" " Ada "] (.message "c" "Yes!")
  have hdone : outcome.status = .completed := by
    rw [hresult] at hstatus
    exact Option.some.inj (Option.some.inj hstatus)
  obtain ⟨name, subscribed, hanswers, hproper, -, -⟩ := hcompleted hdone
  exact ⟨outcome, journal, name, subscribed, hresult, hdone, hanswers, hproper⟩

end Console.Demo
end Colloquy
