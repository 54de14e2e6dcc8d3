import Colloquy.Proofs.Demo.Frames

/-!
# The prompts of the demo conversation

A prompt that is begun in the context of the root dialog waits with its options in its
memory. It stays there through everything but a message in which it finds a value that is
accepted; then it ends with that value.
-/
namespace Colloquy.Console.Demo
open Engine Eval

variable {t t' : Turn} {u rest : Stack} {id : String} {m : Object} {o : PromptOptions}
  {fuel k : Nat} {self : Dialog} {caller : Caller} (p : Prompt)

/-- The memory of a prompt that waits: its options, and a number of messages. -/
structure Asked (m : Object) (o : PromptOptions) : Prop where
  options : m.find? "options" = some o.toJson
  count : ∃ n, m.find? "attemptCount" = some (.nat n)

theorem Asked.insert (hm : m.find? "options" = some o.toJson) (n : Nat) :
    Asked (m.insert "attemptCount" (.nat n)) o where
  options := by simpa using hm
  count := ⟨n, by simp⟩

theorem set_attempts (n : Nat) : (hosting t (card id m :: rest)).set inside.level
    Prompt.attemptPath (.nat n) =
      (.ok (), hosting t (card id (m.insert "attemptCount" (.nat n)) :: rest)) :=
  set_card Prompt.parse_attemptPath rfl

/-! ## Beginning -/

/-- A prompt sends its question when it begins. -/
theorem prompt_begins : (call (k + 1) inside p.dialog (.begin (some o.toJson))).Answers
    (hosting t (card id m :: rest)) (.ok .waiting)
    (hosting (t.send (t.activity.reply o.prompt))
      (card id (m.insert "attemptCount" (.nat 0)) :: rest)) := by
  apply answers_call
  show (interpret _ _ _ _ (p.begin (some o.toJson))).Answers _ _ _
  have hread : Fault.orMalformed (PromptOptions.ofJson? o.toJson) = .ok o := by
    rw [PromptOptions.ofJson?_toJson]
    rfl
  rw [Prompt.begin, hread]
  exact answers_then answers_outcome
    (answers_then (answers_set (set_attempts 0)) (answers_then answers_sendText answers_return))

/-- A question that is not blank is asked by a prompt, which then waits on top. -/
theorem prompt_asked (hp : lookUp inside id = .ok p.dialog)
    (hblank : Text.isBlankText o.prompt = false) (t : Turn) (u : Stack) (k : Nat)
    (self : Dialog) : ∃ m, Asked m o ∧
      (interpret (call (k + 1)) (k + 1) self inside (Program.prompt id o)).Answers (hosting t u)
        (.ok .waiting) (hosting (t.send (t.activity.reply o.prompt)) (card id m :: u)) := by
  have hseed : ((hosting t u).push inside.level (newFrame p.dialog id (hosting t u)
      inside.level)).seed inside.level (seeds p.dialog [] (some o.toJson)) =
        (.ok (), hosting t (card id (Table.empty.insert "options" o.toJson) :: u)) := by
    have hpush : (hosting t u).push inside.level (newFrame p.dialog id (hosting t u) inside.level) =
        hosting t (card id .empty :: u) := rfl
    have hwrite : (hosting t (card id .empty :: u)).set inside.level Prompt.optionsPath o.toJson =
        (.ok (), hosting t (card id (Table.empty.insert "options" o.toJson) :: u)) :=
      set_card Prompt.parse_optionsPath rfl
    rw [hpush]
    show Turn.seed _ _ [(Prompt.optionsPath, o.toJson)] = _
    simp only [Turn.seed, hwrite]
  have hbegin := answers_begin hp rfl (stackAt?_hosting t u) hseed (prompt_begins p (k := k))
  have hm : Asked ((Table.empty.insert "options" o.toJson).insert "attemptCount" (.nat 0)) o :=
    Asked.insert (by simp) 0
  refine ⟨_, hm, ?_⟩
  rw [Program.prompt, hblank, if_neg Bool.false_ne_true]
  exact answers_run hbegin

/-! ## Waiting -/

theorem answers_storedOptions (hm : Asked m o) :
    (interpret caller fuel self inside Prompt.storedOptions).Answers
      (hosting t (card id m :: rest)) (.ok o) (hosting t (card id m :: rest)) := by
  have hget : (hosting t (card id m :: rest)).get inside.level Prompt.optionsPath =
      .ok (some o.toJson) := by
    rw [get_card Prompt.parse_optionsPath]
    simp [Json.at?, hm.options]
  exact answers_then (answers_getAs hget o.ofJson?_toJson) answers_return

theorem prompt_reprompts (hm : Asked m o) : (call (k + 1) inside p.dialog .reprompt).Answers
    (hosting t (card id m :: rest)) (.ok ())
    (hosting (t.send (t.activity.reply o.prompt)) (card id m :: rest)) := by
  apply answers_call
  exact answers_then (answers_storedOptions hm) answers_sendText

theorem answers_judged (trial : Trial) (t : Turn) :
    (interpret caller fuel self inside (p.judged trial)).Answers t
      (.ok (p.judge trial).accepted) t := by
  have hnotes (notes : List Json) :
      (interpret caller fuel self inside (notes.forM Program.record)).Answers t (.ok ()) t := by
    induction notes with
    | nil => exact answers_return
    | cons note rest ih => exact answers_then (fun journal => ⟨_, rfl⟩) ih
  exact answers_then (hnotes _) answers_return

/-- A prompt counts each message and accepts the value that it finds, if it does. -/
theorem answers_accept? (hm : Asked m o) {found : Option Json}
    (hfound : p.recognize t.activity = .ok found) (id : String) (rest : Stack) (k : Nat) :
    ∃ n m', Asked m' o ∧
      (interpret (call k) k p.dialog inside (p.accept? o)).Answers (hosting t (card id m :: rest))
        (.ok (found.filter fun value => (p.judge ⟨value, n, o⟩).accepted))
        (hosting t (card id m' :: rest)) := by
  obtain ⟨n, hn⟩ := hm.count
  have hget : (hosting t (card id m :: rest)).get inside.level Prompt.attemptPath =
      .ok (some (.nat n)) := by
    rw [get_card Prompt.parse_attemptPath]
    simp [Json.at?, hn]
  refine ⟨n + 1, _, Asked.insert hm.options (n + 1), ?_⟩
  refine answers_then (answers_getAs hget rfl) ?_
  refine answers_then (answers_set (set_attempts (n + 1))) ?_
  refine answers_then answers_activity ?_
  rw [hosting_activity, hfound]
  refine answers_then answers_outcome ?_
  cases found with
  | none => exact answers_return
  | some value =>
    refine answers_then (answers_judged p _ _) ?_
    rw [Option.filter_some, Option.getD_some]
    cases (p.judge ⟨value, n + 1, o⟩).accepted with
    | true => exact answers_return
    | false => exact answers_return

/-- The prompt finds a value in the activity and accepts it. -/
structure Takes (a : Activity) (value : Json) : Prop where
  message : a.isMessage = true
  found : p.recognize a = .ok (some value)
  accepted : ∀ n o, (p.judge ⟨value, n, o⟩).accepted = true

/-- The prompt finds no value in the activity that it accepts. -/
def Leaves (a : Activity) : Prop := a.isMessage = true →
  ∃ found, p.recognize a = .ok found ∧
    ∀ n o, (found.filter fun value => (p.judge ⟨value, n, o⟩).accepted) = none

/-- The question is asked another time unless something was said in that turn. -/
theorem answers_retry (o : PromptOptions) (t : Turn) (u : Stack) (k : Nat) :
    ∃ t' : Turn, t'.user = t.user ∧ (interpret (call k) k p.dialog inside (do
      if !(← Program.sight).turn.hasReplied then Program.sendText o.retryText
      return TurnResult.waiting)).Answers (hosting t u) (.ok .waiting) (hosting t' u) := by
  have hsame : (inside.sight (hosting t u)).turn.hasReplied = t.hasReplied := rfl
  cases hreplied : t.hasReplied with
  | true =>
    refine ⟨t, rfl, answers_then answers_sight ?_⟩
    rw [hsame, hreplied]
    exact answers_return
  | false =>
    refine ⟨t.send (t.activity.reply o.retryText), rfl, answers_then answers_sight ?_⟩
    rw [hsame, hreplied]
    exact answers_then answers_sendText answers_return

/-- A message without a value that is accepted is answered at most by another question. -/
theorem prompt_stays (hm : Asked m o) (hleaves : Leaves p t.activity) (id : String)
    (rest : Stack) (k : Nat) : ∃ (t' : Turn) (m' : Object), t'.user = t.user ∧ Asked m' o ∧
      (call (k + 1) inside p.dialog .advance).Answers (hosting t (card id m :: rest))
        (.ok .waiting) (hosting t' (card id m' :: rest)) := by
  cases hmessage : t.activity.isMessage with
  | false =>
    refine ⟨t, m, rfl, hm, answers_call (answers_then answers_activity ?_)⟩
    rw [hosting_activity, hmessage]
    exact answers_return
  | true =>
    obtain ⟨found, hfound, hrejected⟩ := hleaves hmessage
    obtain ⟨n, m', hm', haccept⟩ := answers_accept? p hm hfound id rest k
    rw [hrejected n] at haccept
    obtain ⟨t', huser, hretry⟩ := answers_retry p o t (card id m' :: rest) k
    refine ⟨t', m', huser, hm', answers_call (answers_then answers_activity ?_)⟩
    rw [hosting_activity, hmessage]
    exact answers_then (answers_storedOptions hm) (answers_then haccept hretry)

/-- A message with a value that is accepted ends the prompt. -/
theorem prompt_finishes (hm : Asked m o) {value : Json} (htakes : Takes p t.activity value)
    {outcome : Except Fault TurnResult} (hfinish : ∀ m',
      (finish (call k) inside (some value)).Answers (hosting t (card id m' :: rest)) outcome t') :
    (call (k + 1) inside p.dialog .advance).Answers (hosting t (card id m :: rest)) outcome
      t' := by
  obtain ⟨n, m', -, haccept⟩ := answers_accept? p hm htakes.found id rest k
  rw [Option.filter_some, htakes.accepted] at haccept
  apply answers_call
  refine answers_then answers_activity ?_
  rw [hosting_activity, htakes.message]
  refine answers_then (answers_storedOptions hm) (answers_then haccept ?_)
  exact answers_run (hfinish m')

end Colloquy.Console.Demo
