import Colloquy.Proofs.Demo.Prompts

/-!
# The profile of the demo conversation

The profile is a waterfall over two prompts. It asks for a name, keeps it for the user,
asks whether a newsletter is wanted, keeps the answer too, and ends with both.
-/
namespace Colloquy

/-! ## Steps that end by themselves -/

def Call.isNext : Call α → Bool
  | .next _ => true
  | _ => false

namespace Program

/-- The program never asks for the step after its own. -/
def Steady : Program α → Prop
  | done _ => True
  | look next => ∀ s, (next s).Steady
  | edit _ next => ∀ r, (next r).Steady
  | call c next => c.isNext = false ∧ ∀ r, (next r).Steady
  | note _ next => next.Steady
  | within _ _ next => ∀ r, (next r).Steady

theorem Steady.limitNext {p : Program α} (h : p.Steady) (again : Fault) (used : Bool) :
    p.limitNext again used = p := by
  induction p with
  | done => rfl
  | look next ih => simp [Program.limitNext, ih _ (h _)]
  | edit e next ih => simp [Program.limitNext, ih _ (h _)]
  | call c next ih =>
    obtain ⟨hc, hnext⟩ := h
    cases c with
    | next result => cases hc
    | _ => simp [Program.limitNext, ih _ (hnext _)]
  | note content next ih => simp [Program.limitNext, ih h]
  | within place body next _ ih => simp [Program.limitNext, ih _ (h _)]

theorem Steady.bind {p : Program α} {f : α → Program β} (hp : p.Steady)
    (hf : ∀ x, (f x).Steady) : (p >>= f).Steady := by
  show (p.bind f).Steady
  induction p with
  | done outcome =>
    cases outcome with
    | ok x => exact hf x
    | error e => trivial
  | look next ih => exact fun s => ih s (hp s) hf
  | edit e next ih => exact fun r => ih r (hp r) hf
  | call c next ih => exact ⟨hp.1, fun r => ih r (hp.2 r) hf⟩
  | note content next ih => exact ih hp hf
  | within place body next _ ih => exact fun r => ih r (hp r) hf

theorem steady_getAs (decode : Json → Option α) (path : String) : (getAs decode path).Steady := by
  have hget : (get path).Steady := fun s => trivial
  refine hget.bind fun found => ?_
  cases found with
  | none => trivial
  | some value =>
    have hread : (ofExcept (Fault.orMalformed (decode value))).Steady := trivial
    exact hread.bind fun x => trivial

theorem steady_set (path : String) (value : Json) : (set path value).Steady := fun _ => trivial

theorem steady_sendText (text : String) : (sendText text).Steady := by
  have hactivity : activity.Steady := fun s => trivial
  exact hactivity.bind fun _ _ => trivial

theorem steady_prompt (id : String) (options : PromptOptions) : (prompt id options).Steady := by
  unfold prompt
  split
  · trivial
  · exact ⟨rfl, fun _ => trivial⟩

end Program

namespace Console.Demo
open Engine Eval

theorem askName_steady (input : StepInput) : (askName input).Steady := by
  have hcompany := Program.steady_getAs Json.string? "settings.companyName"
  unfold askName
  refine hcompany.bind fun company => ?_
  exact Program.steady_prompt _ _

theorem askNewsletter_steady (input : StepInput) : (askNewsletter input).Steady := by
  have hsave (key : String) (value : Json) : (Waterfall.save key value).Steady :=
    Program.steady_set _ value
  unfold askNewsletter
  refine (hsave _ _).bind fun _ => (Program.steady_set _ _).bind fun _ => ?_
  exact Program.steady_prompt _ _

theorem summarize_steady (input : StepInput) : (summarize input).Steady := by
  have hvalues : Waterfall.values.Steady :=
    (Program.steady_getAs Json.object? Waterfall.valuesPath).bind fun _ => trivial
  have hfinish (result : Option Json) : (Program.finish result).Steady := ⟨rfl, fun _ => trivial⟩
  unfold summarize
  refine hvalues.bind fun values => (Program.steady_set _ _).bind fun _ => ?_
  exact (Program.steady_sendText _).bind fun _ => hfinish _

variable {t t' : Turn} {u rest : Stack} {m : Object} {fuel k : Nat} {self : Dialog}
  {caller : Caller}

/-! ## Steps -/

/-- The memory of the profile at a step, with what the steps have saved. -/
structure Stepped (m : Object) (index : Nat) (values : Object) : Prop where
  index : m.find? "stepIndex" = some (.nat index)
  values : m.find? "values" = some (.object values)

/-- A step is run with its index written down. -/
theorem answers_runStep {index : Nat} {step : Step} {reason : Reason} {result : Option Json}
    {outcome : Except Fault TurnResult} (hstep : profile.steps[index]? = some step)
    (hsteady : ∀ input, (step input).Steady)
    (hrun : ∀ options, (interpret caller fuel self inside
      (step { index, options, result, reason })).Answers
        (hosting t (card profileId (m.insert "stepIndex" (.nat index)) :: rest)) outcome t') :
    (interpret caller fuel self inside (profile.runStep index reason result)).Answers
      (hosting t (card profileId m :: rest)) outcome t' := by
  have hset : (hosting t (card profileId m :: rest)).set inside.level Waterfall.indexPath
      (.nat index) = (.ok (), hosting t (card profileId (m.insert "stepIndex" (.nat index)) ::
        rest)) := set_card Waterfall.parse_indexPath rfl
  simp only [Waterfall.runStep, hstep]
  refine answers_then (answers_set hset)
    (answers_then (answers_get (get_card Waterfall.parse_optionsPath)) ?_)
  rw [(hsteady _).limitNext]
  exact hrun _

/-- A result that comes back to the profile goes to the step after the one it stands at. -/
theorem profile_resumes {index : Nat} {values : Object} {step : Step} {result : Option Json}
    {outcome : Except Fault TurnResult} (hm : Stepped m index values)
    (hstep : profile.steps[index + 1]? = some step) (hsteady : ∀ input, (step input).Steady)
    (hrun : ∀ options, (interpret (call k) k profile.dialog inside
      (step { index := index + 1, options, result, reason := .ended })).Answers
        (hosting t (card profileId (m.insert "stepIndex" (.nat (index + 1))) :: rest)) outcome
        t') :
    (call (k + 1) inside profile.dialog (.resume .ended result)).Answers
      (hosting t (card profileId m :: rest)) outcome t' := by
  have hget : (hosting t (card profileId m :: rest)).get inside.level Waterfall.indexPath =
      .ok (some (.nat index)) := by
    rw [get_card Waterfall.parse_indexPath]
    simp [Json.at?, hm.index]
  apply answers_call
  exact answers_then (answers_getAs hget rfl) (answers_runStep hstep hsteady hrun)

/-! ## Asking for the name -/

theorem get_company (t : Turn) (u : Stack) :
    (hosting t u).get inside.level "settings.companyName" =
      .ok (t.settings.find? "companyName") := by
  have hpath : Path.parse "settings.companyName" =
      .ok { text := "settings.companyName", scope := .settings, keys := ["companyName"] } :=
    Path.parse_eq (by decide +kernel)
  exact Turn.get_setting hpath _ _

/-- The company's name, if there is one, is a text. -/
def Greets (settings : Object) : Prop :=
  ∀ value, settings.find? "companyName" = some value → ∃ name, value = .string name

theorem find?_name : inside.find? nameId = some namePrompt.dialog := rfl

theorem find?_newsletter : inside.find? newsletterId = some newsletterPrompt.dialog := rfl

theorem lookUp_name : lookUp inside nameId = .ok namePrompt.dialog := rfl

theorem lookUp_newsletter : lookUp inside newsletterId = .ok newsletterPrompt.dialog := rfl

/-- The first question, in a company's name. -/
def greeting (company : String) : PromptOptions :=
  { prompt := "Welcome to " ++ company ++ ". What is your name?", retry := some nameRetry }

theorem greeting_asked (t : Turn) (u : Stack) (k : Nat) (company : String) :
    ∃ m, Asked m (greeting company) ∧
      (interpret (call (k + 1)) (k + 1) profile.dialog inside
        (Program.prompt nameId (greeting company))).Answers (hosting t u) (.ok .waiting)
          (hosting (t.send (t.activity.reply (greeting company).prompt))
            (card nameId m :: u)) := by
  have htext : (greeting company).prompt.toList = 'W' :: ("elcome to ".toList ++
      company.toList ++ ". What is your name?".toList) := by simp [greeting]
  exact prompt_asked namePrompt lookUp_name (Text.isBlankText_of_cons htext (by decide)) t u k
    profile.dialog

theorem askName_asks (hsettings : Greets t.settings) (u : Stack) (k : Nat) (input : StepInput) :
    ∃ o m t', Asked m o ∧ t'.user = t.user ∧
      (interpret (call (k + 1)) (k + 1) profile.dialog inside (askName input)).Answers
        (hosting t u) (.ok .waiting) (hosting t' (card nameId m :: u)) := by
  have hget := get_company t u
  cases hcompany : t.settings.find? "companyName" with
  | none =>
    rw [hcompany] at hget
    obtain ⟨m, hm, hasked⟩ := greeting_asked t u k "Parley"
    exact ⟨_, m, t.send (t.activity.reply (greeting "Parley").prompt), hm, rfl,
      answers_then (answers_getAs_none hget) hasked⟩
  | some value =>
    obtain ⟨company, rfl⟩ := hsettings value hcompany
    rw [hcompany] at hget
    obtain ⟨m, hm, hasked⟩ := greeting_asked t u k company
    exact ⟨_, m, t.send (t.activity.reply (greeting company).prompt), hm, rfl,
      answers_then (answers_getAs hget rfl) hasked⟩

/-- A company's name that is no text cannot be greeted with. -/
theorem askName_malformed {value : Json} (hcompany : t.settings.find? "companyName" = some value)
    (htext : value.string? = none) (input : StepInput) :
    (interpret caller fuel self inside (askName input)).Answers (hosting t u)
      (.error .malformed) (hosting t u) := by
  have hget := get_company t u
  rw [hcompany] at hget
  exact answers_then_error (answers_getAs_malformed hget htext)

/-- What the profile's memory holds when its first step runs. -/
def blank : Object :=
  (Table.empty.insert "values" (.object .empty)).insert "stepIndex" (.nat 0)

theorem blank_stepped : Stepped blank 0 .empty where
  index := by simp [blank]
  values := by simp [blank]

theorem profile_begins {outcome : Except Fault TurnResult}
    (hrun : ∀ input, (interpret (call k) k profile.dialog inside (askName input)).Answers
      (hosting t [card profileId blank]) outcome t') :
    (call (k + 1) inside profile.dialog (.begin none)).Answers
      (hosting t [card profileId .empty]) outcome t' := by
  have hset : (hosting t [card profileId .empty]).set inside.level Waterfall.valuesPath
      (.object .empty) = (.ok (), hosting t [card profileId
        (Table.empty.insert "values" (.object .empty))]) := set_card Waterfall.parse_valuesPath rfl
  apply answers_call
  exact answers_then (answers_set hset)
    (answers_runStep rfl askName_steady fun options => hrun _)

/-- The profile begins by asking for the name. -/
theorem profile_asks_name (hsettings : Greets t.settings) :
    ∃ o m t', Asked m o ∧ t'.user = t.user ∧
      (call (k + 2) inside profile.dialog (.begin none)).Answers
        (hosting t [card profileId .empty]) (.ok .waiting)
        (hosting t' [card nameId m, card profileId blank]) := by
  -- the step does not look at what it is run with
  obtain ⟨o, m, t', hm, huser, hasks⟩ :=
    askName_asks hsettings [card profileId blank] k ⟨0, none, none, .begun⟩
  exact ⟨o, m, t', hm, huser, profile_begins fun _ => hasks⟩

theorem profile_malformed {value : Json} (hcompany : t.settings.find? "companyName" = some value)
    (htext : value.string? = none) : (call (k + 1) inside profile.dialog (.begin none)).Answers
      (hosting t [card profileId .empty]) (.error .malformed)
      (hosting t [card profileId blank]) :=
  profile_begins fun input => askName_malformed hcompany htext input

/-! ## Keeping the answers -/

theorem set_value {values : Object} {index : Nat} (hm : Stepped m index values) (value : Json)
    (t : Turn) (rest : Stack) : ∃ m', Stepped m' index (values.insert "name" value) ∧
      (hosting t (card profileId m :: rest)).set inside.level
        (Waterfall.valuesPath ++ "." ++ "name") value =
          (.ok (), hosting t (card profileId m' :: rest)) := by
  have hpath : Path.parse (Waterfall.valuesPath ++ "." ++ "name") =
      .ok { text := "dialog.values.name", scope := .dialog, keys := ["values", "name"] } :=
    Path.parse_eq (by decide +kernel)
  have hwrite : Object.writeAt? ["values", "name"] value m =
      some (m.insert "values" (.object (values.insert "name" value))) := by
    simp [Object.writeAt?, hm.values]
  refine ⟨_, ⟨?_, ?_⟩, set_card hpath hwrite⟩
  · simpa using hm.index
  · simp

/-- The name is kept, and the newsletter is asked about. -/
theorem profile_takes_name (hm : Stepped m 0 .empty) (t : Turn) (name : String) (k : Nat) :
    ∃ o m₁ m₂ t', Asked m₁ o ∧ Stepped m₂ 1 (Table.empty.insert "name" (.string name)) ∧
      t'.user = t.user.insert "name" (.string name) ∧
      (call (k + 2) inside profile.dialog (.resume .ended (some (.string name)))).Answers
        (hosting t [card profileId m]) (.ok .waiting)
        (hosting t' [card newsletterId m₁, card profileId m₂]) := by
  have hindexed : Stepped (m.insert "stepIndex" (.nat 1)) 1 .empty :=
    ⟨by simp, by simpa using hm.values⟩
  obtain ⟨m₂, hm₂, hvalue⟩ := set_value hindexed (.string name) t []
  have hpath : Path.parse "user.name" =
      .ok { text := "user.name", scope := .user, keys := ["name"] } :=
    Path.parse_eq (by decide +kernel)
  let named : Turn := { t with user := t.user.insert "name" (.string name) }
  have huser : (hosting t [card profileId m₂]).set inside.level "user.name" (.string name) =
      (.ok (), hosting named [card profileId m₂]) := set_user hpath
  let o : PromptOptions :=
    { prompt := "Nice to meet you, " ++ name ++ ". Would you like our newsletter?"
      retry := some "Please answer yes or no." }
  have htext : o.prompt.toList = 'N' :: ("ice to meet you, ".toList ++ name.toList ++
      ". Would you like our newsletter?".toList) := by simp [o]
  obtain ⟨m₁, hm₁, hasked⟩ := prompt_asked newsletterPrompt lookUp_newsletter
    (Text.isBlankText_of_cons htext (by decide)) named [card profileId m₂] k profile.dialog
  have hrun (options : Option Json) : (interpret (call (k + 1)) (k + 1) profile.dialog inside
      (askNewsletter
        { index := 1, options, result := some (.string name), reason := .ended })).Answers
        (hosting t [card profileId (m.insert "stepIndex" (.nat 1))]) (.ok .waiting) _ :=
    answers_then (answers_set hvalue) (answers_then (answers_set huser) hasked)
  exact ⟨o, m₁, m₂, _, hm₁, hm₂, rfl, profile_resumes hm rfl askNewsletter_steady hrun⟩

/-- The answer is kept, and the profile ends with all that was saved and the answer. -/
theorem profile_takes_newsletter {values : Object} (hm : Stepped m 1 values) (t : Turn)
    (subscribed : Bool) (k : Nat) : ∃ t' : Turn,
      t'.user = t.user.insert "newsletter" (.bool subscribed) ∧
      (call (k + 2) inside profile.dialog (.resume .ended (some (.bool subscribed)))).Answers
        (hosting t [card profileId m])
        (.ok (.completed (some (.object (values.insert "newsletter" (.bool subscribed))))))
        (hosting t' []) := by
  let m' := m.insert "stepIndex" (.nat 2)
  let result : Json := .object (values.insert "newsletter" (.bool subscribed))
  let text := if subscribed then "You're subscribed. Say anything to start over."
    else "No newsletter then. Say anything to start over."
  let t₁ : Turn := { t with user := t.user.insert "newsletter" (.bool subscribed) }
  have hget : (hosting t [card profileId m']).get inside.level Waterfall.valuesPath =
      .ok (some (.object values)) := by
    rw [get_card Waterfall.parse_valuesPath]
    simp [Json.at?, m', hm.values]
  have hpath : Path.parse "user.newsletter" =
      .ok { text := "user.newsletter", scope := .user, keys := ["newsletter"] } :=
    Path.parse_eq (by decide +kernel)
  have huser : (hosting t [card profileId m']).set inside.level "user.newsletter"
      (.bool subscribed) = (.ok (), hosting t₁ [card profileId m']) := set_user hpath
  have hfinish : (finish (call (k + 1)) inside (some result)).Answers
      (hosting (t₁.send (t₁.activity.reply text)) [card profileId m'])
      (.ok (.completed (some result))) (hosting (t₁.send (t₁.activity.reply text)) []) :=
    answers_finish_last (stackAt?_hosting _ _) rfl rfl (answers_at_once rfl)
  have hrun (options : Option Json) : (interpret (call (k + 1)) (k + 1) profile.dialog inside
      (summarize
        { index := 2, options, result := some (.bool subscribed), reason := .ended })).Answers
        (hosting t [card profileId m']) (.ok (.completed (some result)))
        (hosting (t₁.send (t₁.activity.reply text)) []) := by
    refine answers_then (answers_then (answers_getAs hget rfl) answers_return) ?_
    refine answers_then (answers_set huser) ?_
    exact answers_then answers_sendText (answers_run hfinish)
  exact ⟨_, rfl, profile_resumes hm rfl summarize_steady hrun⟩

end Console.Demo
end Colloquy
