import Colloquy.Host
import Colloquy.Proofs.Demo.Root

/-!
# Turns of the demo conversation

An activity is offered to the prompt that is asked and to the root dialog around it. What
the root dialog does not answer goes to the prompt. So a turn leaves the question where it
is, ends the conversation, or takes an answer.
-/
namespace Colloquy

/-- A turn answers with what its stack comes to, from the stack that was kept. -/
theorem Host.respond_of_answers {host : Host} {fuel : Nat} {stored : Snapshot} {u : Stack}
    {outcome : Except Fault TurnResult} {t' : Turn} (hstack : stored.stack? = some u) (a : Activity)
    (hanswers : (host.runStack fuel a.toJson).Answers (Turn.opening a host.settings stored.user
      (stored.conversation.erase Turn.stackKey) u) outcome t') :
    ∃ journal, host.respond fuel a stored = some {
      journal
      outcome := outcome.map fun r =>
        ({ status := r.status, result := r.result, replies := host.stamped t'.outbox },
          t'.snapshot) } := by
  obtain ⟨journal, hrun⟩ := hanswers []
  have hstart := Turn.start_of_stack? hstack a host.settings
  exact ⟨journal, by simp only [Host.respond, hstart, hrun, Option.map_some]⟩

/-- The host runs the demo conversation. -/
structure Host.RunsDemo (host : Host) : Prop where
  dialogs : host.dialogs = Console.Demo.dialogs
  root : host.root = Console.Demo.rootId

theorem Host.RunsDemo.view {host : Host} (h : host.RunsDemo) :
    host.view = Console.Demo.outside := by
  rw [Host.view, h.dialogs]

namespace Console.Demo
open Engine Eval

variable {host : Host} {t t' : Turn} {u rest : Stack} {id : String} {m : Object}
  {o : PromptOptions} {fuel k : Nat} {outcome : Except Fault TurnResult} {p : Prompt}
  {a : Activity}

/-- When nothing is running, the root dialog begins. -/
theorem answers_runStack_idle (h : host.RunsDemo) {activity : Json}
    (hbegin : (begin (call fuel) outside rootId none).Answers (t.running []) outcome t') :
    (host.runStack fuel activity).Answers (t.running []) outcome t' := by
  have hidle : (t.running []).depth 0 = 0 := rfl
  have hempty : (advance (call fuel) outside).Answers (t.running []) (.ok .empty)
      (t.running []) := answers_advance_idle rfl
  unfold Host.runStack
  rw [h.view, h.root]
  apply answers_turn
  rw [hidle, if_neg (Nat.lt_irrefl 0)]
  exact answers_bind hempty hbegin

/-- The root dialog hears an activity after the prompt that is asked. -/
theorem answers_emit (hp : inside.find? id = some p.dialog) {handled : Bool}
    (hoffer : (offer (call (k + 1)) (heard a) outside (pure false)).Answers
      (hosting t (card id m :: rest)) (.ok handled) t')
    (hsame : handled = false → t' = hosting t (card id m :: rest)) :
    (emit (call (k + 1)) outside (heard a) true).Answers (hosting t (card id m :: rest))
      (.ok handled) t' := by
  have hbefore : (call (k + 1) inside p.dialog (.before (heard a))).Answers
      (hosting t (card id m :: rest)) (.ok false) (hosting t (card id m :: rest)) :=
    answers_at_once rfl
  apply answers_turn
  show (offer (call (k + 1)) (heard a) inside
    (offer (call (k + 1)) (heard a) outside (pure false))).Answers _ _ _
  cases handled with
  | true => exact answers_offer_outward (stackAt?_hosting _ _) hp hbefore hoffer
  | false =>
    rw [hsame rfl] at hoffer ⊢
    exact answers_offer_declined (stackAt?_hosting _ _) hp hbefore hoffer (answers_at_once rfl)

/-- An activity that the root dialog answers goes no further. -/
theorem answers_runStack_handled (h : host.RunsDemo) (hp : inside.find? id = some p.dialog)
    (hbefore : (call (k + 1) outside root (.before (heard a))).Answers
      (hosting t (card id m :: rest)) (.ok true) t') :
    (host.runStack (k + 1) a.toJson).Answers (hosting t (card id m :: rest))
      (.ok (if 0 < t'.depth 0 then .waiting else .cancelled)) t' := by
  have hemit := answers_emit hp (answers_offer_before (stackAt?_outside _ _) find?_root hbefore)
    (fun hfalse => by cases hfalse)
  have hdepth : (hosting t (card id m :: rest)).depth 0 = 1 := rfl
  unfold Host.runStack
  rw [h.view, h.root]
  apply answers_turn
  rw [hdepth, if_pos Nat.one_pos]
  refine answers_bind hemit ?_
  apply answers_turn
  exact answers_pure

/-- An activity that is none of the words goes to the prompt that is asked. -/
theorem answers_runStack_advance (h : host.RunsDemo) (hp : inside.find? id = some p.dialog)
    (hhelp : a.text.map word ≠ some "help") (hcancel : a.text.map word ≠ some "cancel")
    {result : TurnResult} (hresult : result.status ≠ .empty)
    (hadvance : (call (k + 1) outside root .advance).Answers
      (hosting t (card id m :: rest)) (.ok result) t') :
    (host.runStack (k + 1) a.toJson).Answers (hosting t (card id m :: rest)) (.ok result) t' := by
  have hdeclined : (call (k + 1) outside root (.before (heard a))).Answers
      (hosting t (card id m :: rest)) (.ok false) (hosting t (card id m :: rest)) :=
    root_declines (by rwa [keyword?_heard]) (by rwa [keyword?_heard])
  have hemit := answers_emit hp (answers_offer_declined (stackAt?_outside _ _) find?_root
    hdeclined answers_pure (answers_at_once rfl)) (fun _ => rfl)
  have hdepth : (hosting t (card id m :: rest)).depth 0 = 1 := rfl
  have hgoOn : (advance (call (k + 1)) outside).Answers (hosting t (card id m :: rest))
      (.ok result) t' := answers_advance (stackAt?_outside _ _) find?_root hadvance
  unfold Host.runStack
  rw [h.view, h.root]
  apply answers_turn
  rw [hdepth, if_pos Nat.one_pos]
  refine answers_bind hemit (answers_bind hgoOn ?_)
  rw [if_neg hresult]
  exact answers_pure

/-! ## What a turn comes to -/

/-- The text of the activity is one of the root dialog's words. -/
def SaysWord (a : Activity) : Prop :=
  a.text.map word = some "help" ∨ a.text.map word = some "cancel"

/-- Without an answer a question stays as it is, or the conversation is over. -/
theorem turn_without_answer (h : host.RunsDemo) (hp : inside.find? id = some p.dialog)
    (hm : Asked m o) (hclose : ∀ f ∈ card id m :: rest, Closable f) (hlength : rest.length ≤ 1)
    (hanswer : SaysWord t.activity ∨ Leaves p t.activity) (k : Nat) :
    ∃ t' : Turn, t'.user = t.user ∧
      ((∃ m', Asked m' o ∧ (host.runStack (k + 5) t.activity.toJson).Answers
        (hosting t (card id m :: rest)) (.ok .waiting) (hosting t' (card id m' :: rest))) ∨
      (host.runStack (k + 5) t.activity.toJson).Answers (hosting t (card id m :: rest))
        (.ok .cancelled) (t'.running [])) := by
  by_cases hhelp : t.activity.text.map word = some "help"
  · have hword : keyword? (heard t.activity) = some "help" := by rw [keyword?_heard, hhelp]
    obtain ⟨t', huser, hhelps⟩ := root_helps p hp hword hm t rest (k + 2)
    exact ⟨t', huser, .inl ⟨m, hm, answers_runStack_handled h hp hhelps⟩⟩
  by_cases hcancel : t.activity.text.map word = some "cancel"
  · have hword : keyword? (heard t.activity) = some "cancel" := by rw [keyword?_heard, hcancel]
    have hbound : (card id m :: rest).length < k + 2 + 1 := by
      rw [List.length_cons]
      omega
    obtain ⟨t', huser, hstack, hcancels⟩ := root_cancels (t := t) hword hclose hbound
    have hrunning : t' = t'.running [] := by rw [← hstack]; rfl
    rw [hrunning] at hcancels
    exact ⟨t', huser, .inr (answers_runStack_handled h hp hcancels)⟩
  · have hleaves : Leaves p t.activity := by
      rcases hanswer with hword | hleaves
      · exact absurd hword (not_or.mpr ⟨hhelp, hcancel⟩)
      · exact hleaves
    obtain ⟨t', m', huser, hm', hstays⟩ := prompt_stays p hm hleaves id rest (k + 3)
    have hadvance : (advance (call (k + 4)) inside).Answers (hosting t (card id m :: rest))
        (.ok .waiting) (hosting t' (card id m' :: rest)) :=
      answers_advance (stackAt?_hosting _ _) hp hstays
    exact ⟨t', huser, .inl ⟨m', hm', answers_runStack_advance h hp hhelp hcancel Status.noConfusion
      (root_waits hadvance)⟩⟩

/-- An answer ends the prompt, and the profile goes on with it. -/
theorem advance_with_answer (hp : inside.find? id = some p.dialog) (hm : Asked m o)
    {value : Json} (htakes : Takes p t.activity value) {profileMemory : Object}
    (hresume : (call (k + 1) inside profile.dialog (.resume .ended (some value))).Answers
      (hosting t [card profileId profileMemory]) outcome t') :
    (advance (call (k + 2)) inside).Answers
      (hosting t [card id m, card profileId profileMemory]) outcome t' := by
  have hfinish (m' : Object) : (finish (call (k + 1)) inside (some value)).Answers
      (hosting t [card id m', card profileId profileMemory]) outcome t' :=
    answers_finish_over (stackAt?_hosting _ _) hp rfl (answers_at_once rfl) rfl hresume
  exact answers_advance (stackAt?_hosting _ _) hp (prompt_finishes p hm htakes hfinish)

/-! ## Answers -/

/-- A name as the conversation takes it: not blank, without blanks around it, of at most 40
characters, and neither of the root dialog's words. -/
structure ProperName (name : String) : Prop where
  visible : Text.isBlankText name = false
  trimmed : Text.trim name = name
  short : name.length ≤ 40
  noHelp : Text.lower name ≠ "help"
  noCancel : Text.lower name ≠ "cancel"

theorem proper_of_answer (hword : ¬ SaysWord a)
    (hempty : ¬ (Text.trim a.textOrEmpty).isEmpty)
    (hshort : (Text.trim a.textOrEmpty).length ≤ longestName) :
    ProperName (Text.trim a.textOrEmpty) := by
  obtain ⟨text, htext⟩ : ∃ text, a.text = some text := by
    cases htext : a.text with
    | some text => exact ⟨text, rfl⟩
    | none =>
      have hnothing : Text.trim a.textOrEmpty = "" := by
        rw [Activity.textOrEmpty, htext]
        decide
      rw [hnothing] at hempty
      exact absurd rfl hempty
  have hsaid : a.text.map word = some (Text.lower (Text.trim a.textOrEmpty)) := by
    rw [Activity.textOrEmpty, htext]
    rfl
  rw [SaysWord, hsaid, not_or] at hword
  constructor
  case visible => rw [Text.isBlankText_trim, Bool.eq_false_iff]; exact hempty
  case trimmed => exact Text.trim_trim _
  case short => exact hshort
  case noHelp => exact fun h => hword.1 (congrArg some h)
  case noCancel => exact fun h => hword.2 (congrArg some h)

theorem judge_name (name : String) (n : Nat) (o : PromptOptions) :
    (namePrompt.judge ⟨.string name, n, o⟩).accepted = decide (name.length ≤ longestName) := rfl

/-- A message that is none of the words is a name, or the question for it stays. -/
theorem name_answered (a : Activity) (hword : ¬ SaysWord a) :
    Leaves namePrompt a ∨ ∃ name, ProperName name ∧ Takes namePrompt a (.string name) := by
  cases hmessage : a.isMessage with
  | false => exact .inl fun htrue => absurd htrue (by simp [hmessage])
  | true =>
    by_cases hempty : (Text.trim a.textOrEmpty).isEmpty
    · have hfound : Recognizer.text a = .ok none := by simp [Recognizer.text, hempty]
      exact .inl fun _ => ⟨none, hfound, fun _ _ => rfl⟩
    have hfound : Recognizer.text a = .ok (some (.string (Text.trim a.textOrEmpty))) := by
      simp [Recognizer.text, hempty]
    by_cases hshort : (Text.trim a.textOrEmpty).length ≤ longestName
    · refine .inr ⟨_, proper_of_answer hword hempty hshort, hmessage, hfound, fun n o => ?_⟩
      rw [judge_name, decide_eq_true hshort]
    · refine .inl fun _ => ⟨_, hfound, fun n o => ?_⟩
      rw [Option.filter_some, judge_name, decide_eq_false hshort]
      rfl

/-- A message is a yes or a no, or the question stays. -/
theorem newsletter_answered (a : Activity) :
    Leaves newsletterPrompt a ∨ ∃ subscribed, Takes newsletterPrompt a (.bool subscribed) := by
  cases hmessage : a.isMessage with
  | false => exact .inl fun htrue => absurd htrue (by simp [hmessage])
  | true =>
    by_cases hyes : Recognizer.answer a ∈ Recognizer.yes
    · have hfound : Recognizer.confirm a = .ok (some (.bool true)) := by
        simp [Recognizer.confirm, hyes]
      exact .inr ⟨true, hmessage, hfound, fun _ _ => rfl⟩
    by_cases hno : Recognizer.answer a ∈ Recognizer.no
    · have hfound : Recognizer.confirm a = .ok (some (.bool false)) := by
        simp [Recognizer.confirm, hyes, hno]
      exact .inr ⟨false, hmessage, hfound, fun _ _ => rfl⟩
    · have hfound : Recognizer.confirm a = .ok none := by
        simp [Recognizer.confirm, hyes, hno]
      exact .inl fun _ => ⟨none, hfound, fun _ _ => rfl⟩

end Console.Demo
end Colloquy
