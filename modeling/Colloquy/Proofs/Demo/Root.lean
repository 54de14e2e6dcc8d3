import Colloquy.Proofs.Demo.Profile

/-!
# The root of the demo conversation

The root dialog hosts the profile. It hears every activity before the prompt that is asked
does: one of two words asks the question again or gives up, and everything else is left to
the prompt.
-/
namespace Colloquy

/-- The text of an activity is found in what is written of it. -/
theorem Activity.field?_text (a : Activity) : a.toJson.field? "text" = a.text.map .string := by
  obtain ⟨kind, conversation, text, name, value, timestamp⟩ := a
  cases text <;> cases name <;> cases value <;> cases timestamp <;>
    simp [toJson, Json.ofFields, Table.ofList, Json.optional]

namespace Console.Demo
open Engine Eval

variable {t t' : Turn} {u rest : Stack} {id : String} {m : Object} {o : PromptOptions} {k : Nat}
  {event : Event}

/-- The event that an activity is offered as. -/
def heard (a : Activity) : Event :=
  { name := Event.activityReceived, value := some a.toJson, bubble := true }

/-- The word that a text says. -/
def word (text : String) : String := Text.lower (Text.trim text)

theorem keyword?_heard (a : Activity) : keyword? (heard a) = a.text.map word := by
  have hvalue : (heard a).value.bind (·.field? "text") = a.text.map .string := a.field?_text
  simp only [keyword?, hvalue]
  cases a.text <;> rfl

theorem find?_root : outside.find? rootId = some root := rfl

theorem stackAt?_outside (t : Turn) (u : Stack) : (hosting t u).stackAt? outside.level =
    some [{ Frame.owning rootId with children := u }] := rfl

/-- What is not one of the two words is not answered by the root dialog. -/
theorem root_declines (hhelp : keyword? event ≠ some "help")
    (hcancel : keyword? event ≠ some "cancel") :
    (call (k + 1) outside root (.before event)).Answers t (.ok false) t := by
  have hprogram : root.program (.before event) = pure false := by
    show answerKeyword event = _
    unfold answerKeyword
    split
    · next hword => exact absurd hword hhelp
    · next hword => exact absurd hword hcancel
    · rfl
  exact answers_at_once hprogram

/-! ## Asking again -/

/-- The question is asked again after a hint. -/
theorem root_helps (p : Prompt) (hp : inside.find? id = some p.dialog)
    (hword : keyword? event = some "help") (hm : Asked m o) (t : Turn) (rest : Stack) (k : Nat) :
    ∃ t' : Turn, t'.user = t.user ∧
      (call (k + 3) outside root (.before event)).Answers (hosting t (card id m :: rest))
        (.ok true) (hosting t' (card id m :: rest)) := by
  have hprogram : root.program (.before event) = (do
      Program.sendText "Answer the question below, or say 'cancel' to stop."
      let _ ← Program.reprompt
      return true) := by
    show answerKeyword event = _
    rw [answerKeyword, hword]
    rfl
  let hinted := t.send (t.activity.reply "Answer the question below, or say 'cancel' to stop.")
  let asked := hinted.send (hinted.activity.reply o.prompt)
  have hinner : (reprompt (call (k + 1)) inside).Answers (hosting hinted (card id m :: rest))
      (.ok .waiting) (hosting asked (card id m :: rest)) :=
    answers_reprompt (stackAt?_hosting _ _) hp (answers_at_once rfl) (answers_at_once rfl)
      (prompt_reprompts p hm)
  have hroot : (call (k + 2) outside root .reprompt).Answers
      (hosting hinted (card id m :: rest)) (.ok ()) (hosting asked (card id m :: rest)) :=
    answers_call (answers_then (answers_inChild (child?_hosting _ _) (answers_run hinner))
      answers_return)
  have hno : keyword? { name := Event.repromptDialog } = none := rfl
  have hdeclined : (call (k + 2) outside root (.before { name := Event.repromptDialog })).Answers
      (hosting hinted (card id m :: rest)) (.ok false) (hosting hinted (card id m :: rest)) :=
    root_declines (by rw [hno]; simp) (by rw [hno]; simp)
  have hagain : (reprompt (call (k + 2)) outside).Answers (hosting hinted (card id m :: rest))
      (.ok .waiting) (hosting asked (card id m :: rest)) :=
    answers_reprompt (stackAt?_outside _ _) find?_root hdeclined (answers_at_once rfl) hroot
  refine ⟨asked, rfl, answers_call ?_⟩
  rw [hprogram]
  exact answers_then answers_sendText (answers_then (answers_run hagain) answers_return)

/-! ## Giving up -/

/-- The dialog of a frame takes no notice of its end. -/
def Closable (f : Frame) : Prop :=
  ∃ d, inside.find? f.id = some d ∧ ∀ reason, d.program (.close reason) = pure ()

theorem root_closes (hclose : ∀ f ∈ u, Closable f) (hbound : u.length < k + 1) :
    (call (k + 2) outside root (.close .cancelled)).Answers (hosting t u) (.ok ())
      (hosting t []) := by
  have hclear : (clear (call (k + 1)) inside .cancelled (k + 1)).Answers (hosting t u) (.ok ())
      (hosting t []) := by
    refine answers_clear (stackAt?_hosting t u) (fun f hf => ?_) hbound
    obtain ⟨d, hd, hclosed⟩ := hclose f hf
    exact ⟨d, hd, fun _ => answers_at_once (hclosed .cancelled)⟩
  exact answers_call (answers_then (answers_inChild (child?_hosting _ _) (answers_run hclear))
    answers_return)

/-- The conversation is over after a word of goodbye. -/
theorem root_cancels (hword : keyword? event = some "cancel") (hclose : ∀ f ∈ u, Closable f)
    (hbound : u.length < k + 1) : ∃ t' : Turn, t'.user = t.user ∧ t'.stack = [] ∧
      (call (k + 3) outside root (.before event)).Answers (hosting t u) (.ok true) t' := by
  have hprogram : root.program (.before event) = (do
      Program.sendText "Cancelled. Say anything to start over."
      let _ ← Program.run (.cancelAll Event.cancelDialog none)
      return true) := by
    show answerKeyword event = _
    rw [answerKeyword, hword]
    rfl
  let told := t.send (t.activity.reply "Cancelled. Say anything to start over.")
  have hend : (endActive (call (k + 2)) outside .cancelled none).Answers (hosting told u)
      (.ok ()) ((hosting told []).pop outside.level) :=
    answers_endActive (stackAt?_outside _ _) find?_root (root_closes hclose hbound)
      (stackAt?_outside _ _) (writeOutput_none _ _)
  have houtward : (cancelOutward (call (k + 2)) { name := Event.cancelDialog } outside false
      (k + 2)).Answers (hosting told u) (.ok ()) ((hosting told []).pop outside.level) := by
    have hdepth : (hosting told u).depth outside.level ≠ 0 := Nat.succ_ne_zero 0
    intro journal
    obtain ⟨journal', hended⟩ := hend journal
    rw [cancelOutward_first hdepth hended, cancelOutward_stop rfl rfl]
    exact ⟨journal', rfl⟩
  have hcancel : (cancelAll (call (k + 2)) outside Event.cancelDialog none (k + 2)).Answers
      (hosting told u) (.ok .cancelled) ((hosting told []).pop outside.level) := by
    have hsome : ((hosting told u).chain outside.level).all List.isEmpty = false := rfl
    apply answers_turn
    rw [hsome, if_neg Bool.false_ne_true]
    exact answers_bind houtward answers_pure
  refine ⟨(hosting told []).pop outside.level, rfl, rfl, answers_call ?_⟩
  rw [hprogram]
  exact answers_then answers_sendText (answers_then (answers_run hcancel) answers_return)

/-! ## Going on -/

theorem answers_hosted {body : Program α} {caller : Caller} {self : Dialog} {x : α}
    (h : (interpret caller k self inside body).Answers (hosting t u) (.ok x) t') :
    (interpret caller k self outside (Component.hosted body)).Answers (hosting t u) (.ok x) t' :=
  answers_then (answers_inChild (child?_hosting t u) h) answers_return

/-- While the profile waits, so does the root dialog. -/
theorem root_waits {u' : Stack} (hadvance : (advance (call (k + 1)) inside).Answers (hosting t u)
    (.ok .waiting) (hosting t' u')) :
    (call (k + 2) outside root .advance).Answers (hosting t u) (.ok .waiting) (hosting t' u') := by
  have hpassed : (interpret (call (k + 1)) (k + 1) root outside
      (Component.hosted Program.advance)).Answers (hosting t u) (.ok .waiting) (hosting t' u') :=
    answers_hosted (answers_run hadvance)
  exact answers_call (answers_then hpassed answers_return)

/-- Once the profile has completed, the root dialog completes with the same result. -/
theorem root_completes {result : Option Json} (hadvance : (advance (call (k + 1)) inside).Answers
    (hosting t u) (.ok (.completed result)) (hosting t' [])) :
    (call (k + 2) outside root .advance).Answers (hosting t u) (.ok (.completed result))
      (t'.running []) := by
  have hfinish : (finish (call (k + 1)) outside result).Answers (hosting t' [])
      (.ok (.completed result)) (t'.running []) :=
    answers_finish_last (stackAt?_outside _ _) find?_root rfl (answers_at_once rfl)
  have hsettle : (interpret (call (k + 1)) (k + 1) root outside
      (Component.settle (.completed result))).Answers (hosting t' []) (.ok (.completed result))
        (t'.running []) := answers_run hfinish
  have hpassed : (interpret (call (k + 1)) (k + 1) root outside
      (Component.hosted Program.advance)).Answers (hosting t u) (.ok (.completed result))
        (hosting t' []) := answers_hosted (answers_run hadvance)
  exact answers_call (answers_then hpassed hsettle)

/-! ## Beginning -/

theorem begin_root {outcome : Except Fault TurnResult}
    (hbegin : (call k outside root (.begin none)).Answers (hosting t []) outcome t') :
    (begin (call k) outside rootId none).Answers (t.running []) outcome
      (if outcome.isOk then t' else t'.truncate outside.level 0) := by
  have hstack : (t.running []).stackAt? outside.level = some [] := rfl
  exact answers_begin rfl rfl hstack rfl hbegin

theorem begin_profile {outcome : Except Fault TurnResult}
    (hbegin : (call k inside profile.dialog (.begin none)).Answers
      (hosting t [card profileId .empty]) outcome t') :
    (begin (call k) inside profileId none).Answers (hosting t []) outcome
      (if outcome.isOk then t' else t'.truncate inside.level 0) :=
  answers_begin rfl rfl (stackAt?_hosting t []) rfl hbegin

/-- The conversation begins with the question for a name. -/
theorem root_begins (hsettings : Greets t.settings) : ∃ (o : PromptOptions) (m : Object)
    (t' : Turn), Asked m o ∧ t'.user = t.user ∧
      (begin (call (k + 3)) outside rootId none).Answers (t.running []) (.ok .waiting)
        (hosting t' [card nameId m, card profileId blank]) := by
  obtain ⟨o, m, t', hm, huser, hasks⟩ := profile_asks_name (k := k) hsettings
  have hbegin : (call (k + 3) outside root (.begin none)).Answers (hosting t []) (.ok .waiting)
      (hosting t' [card nameId m, card profileId blank]) := by
    apply answers_call
    exact answers_then (a := .waiting) (answers_hosted (answers_run (begin_profile hasks)))
      answers_return
  exact ⟨o, m, t', hm, huser, begin_root hbegin⟩

/-- The conversation cannot begin in a company's name that is no text. -/
theorem root_malformed {value : Json} (hcompany : t.settings.find? "companyName" = some value)
    (htext : value.string? = none) : ∃ t' : Turn,
      (begin (call (k + 2)) outside rootId none).Answers (t.running []) (.error .malformed) t' := by
  have hmalformed := begin_profile (profile_malformed (k := k) hcompany htext)
  have hhosted : (interpret (call (k + 1)) (k + 1) root outside
      (Program.inChild (Program.begin profileId none))).Answers (hosting t [])
        (.error .malformed) _ :=
    answers_inChild_error (child?_hosting t []) (answers_run hmalformed)
  have hbegin : (call (k + 2) outside root (.begin none)).Answers (hosting t [])
      (.error .malformed) _ := answers_call (answers_then_error (answers_then_error hhosted))
  exact ⟨_, begin_root hbegin⟩

end Console.Demo
end Colloquy
