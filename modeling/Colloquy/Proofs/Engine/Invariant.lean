import Colloquy.Proofs.Engine.Fuel

/-!
# Invariants of runs

The engine changes stacks in few ways: it edits memories, pushes the frames it makes, pops
and truncates. What all of these leave true of a turn stays true through every run, at each
call of a hook and at the end, however the hooks fail. One way is left out: a replacement
that fails puts back a frame that it took off.
-/
namespace Colloquy

/-- The changes of turns that runs are made of keep the property. -/
structure Turn.Invariant (I : Turn → Prop) : Prop where
  edit {α : Type} (e : Edit α) (level : Nat) {t : Turn} (h : I t) : I (e.apply level t).2
  push (d : Dialog) (id : String) {level : Nat} {t : Turn} (hstack : (t.stackAt? level).isSome)
    (h : I t) : I (t.push level (Engine.newFrame d id t level))
  pop (level : Nat) {t : Turn} (h : I t) : I (t.pop level)
  truncate (level depth : Nat) {t : Turn} (h : I t) : I (t.truncate level depth)

/-- The entry is that of a call, or holds it among what happened during another. -/
inductive Entry.Calls (c : HookCall) : Entry → Prop
  | here {answer : Except Fault c.hook.Reply} {during : List Entry} :
      Calls c (.called c answer during)
  | during {call : HookCall} {answer : Except Fault call.hook.Reply} {during : List Entry}
      {e : Entry} (he : e ∈ during) (h : e.Calls c) : Calls c (.called call answer during)

/-- The property holds of the turn and of all turns that hooks found. -/
structure Session.Always (I : Turn → Prop) (s : Session) : Prop where
  now : I s.turn
  calls : ∀ e ∈ s.journal, ∀ c, e.Calls c → I c.turn

namespace Eval
variable {I : Turn → Prop}

/-- Wherever the evaluation starts with the property, all its turns have it. -/
def Preserves (I : Turn → Prop) (x : Eval α) : Prop :=
  ∀ s r, s.Always I → x s = some r → r.2.Always I

theorem preserves_exhausted : (exhausted : Eval α).Preserves I := by
  intro s r _ h
  cases h

theorem preserves_ofExcept (outcome : Except Fault α) : (ofExcept outcome).Preserves I := by
  rintro s _ h ⟨⟩
  exact h

theorem preserves_pure (a : α) : (pure a : Eval α).Preserves I := preserves_ofExcept (.ok a)

theorem preserves_throw (e : Fault) : (throw e : Eval α).Preserves I :=
  preserves_ofExcept (.error e)

theorem preserves_bind {x : Eval α} {f : α → Eval β} (hx : x.Preserves I)
    (hf : ∀ a, (f a).Preserves I) : (x >>= f).Preserves I := by
  intro s r hs h
  rw [bind_apply] at h
  cases hfirst : x s with
  | none => simp [hfirst] at h
  | some first =>
    have hfirst' := hx s first hs hfirst
    obtain ⟨outcome, s₁⟩ := first
    cases outcome with
    | ok a =>
      simp only [hfirst] at h
      exact hf a s₁ r hfirst' h
    | error e =>
      simp only [hfirst, Option.some.injEq] at h
      rw [← h]
      exact hfirst'

theorem preserves_turn {f : Turn → Eval α} (hf : ∀ t, (f t).Preserves I) :
    (turn >>= f).Preserves I := fun s r hs h => hf s.turn s r hs h

theorem preserves_attempt {x : Eval α} (hx : x.Preserves I) : x.attempt.Preserves I := by
  intro s r hs h
  obtain ⟨first, hfirst, rfl⟩ := Option.map_eq_some_iff.mp h
  exact hx s first hs hfirst

theorem preserves_onTurn {f : Turn → Except Fault α × Turn} (hf : ∀ t, I t → I (f t).2) :
    (onTurn f).Preserves I := by
  rintro s _ hs ⟨⟩
  exact ⟨hf s.turn hs.now, hs.calls⟩

theorem preserves_modifyTurn {f : Turn → Turn} (hf : ∀ t, I t → I (f t)) :
    (modifyTurn f).Preserves I := by
  rintro s _ hs ⟨⟩
  exact ⟨hf s.turn hs.now, hs.calls⟩

theorem preserves_log (content : Json) : (log (.noted content)).Preserves I := by
  rintro s _ hs ⟨⟩
  refine ⟨hs.now, fun e he c hc => ?_⟩
  rcases List.mem_append.mp he with hold | hnew
  · exact hs.calls e hold c hc
  · rw [List.mem_singleton.mp hnew] at hc
    cases hc

/-- A call is entered with the turn it found. -/
theorem preserves_entered (v : View) (d : Dialog) (hook : Hook) {x : Eval hook.Reply}
    (hx : x.Preserves I) :
    (turn >>= fun turn => entered (.called
      { dialog := d.id, traced := d.traced, level := v.level, turn, hook }) x).Preserves I := by
  intro s r hs h
  obtain ⟨⟨outcome, after⟩, hafter, rfl⟩ := Option.map_eq_some_iff.mp h
  have hinner := hx { s with journal := [] } _ ⟨hs.now, List.forall_mem_nil _⟩ hafter
  refine ⟨hinner.now, fun e he c hc => ?_⟩
  rcases List.mem_append.mp he with hold | hnew
  · exact hs.calls e hold c hc
  · rw [List.mem_singleton.mp hnew] at hc
    cases hc with
    | here => exact hs.now
    | during he' hc' => exact hinner.calls _ he' c hc'

end Eval

/-- All calls of hooks preserve the property. -/
def Caller.Preserves (I : Turn → Prop) (caller : Caller) : Prop :=
  ∀ v d hook, (caller v d hook).Preserves I

namespace Engine
open Eval

section
variable {I : Turn → Prop} (hI : Turn.Invariant I) {caller : Caller} (h : caller.Preserves I)
include hI

theorem preserves_set (level : Nat) (path : String) (value : Json) :
    (onTurn (·.set level path value)).Preserves I :=
  preserves_onTurn fun _ ht => hI.edit (.set path value) level ht

theorem preserves_popFrame (level : Nat) : (popFrame level).Preserves I := by
  refine preserves_onTurn fun t ht => ?_
  cases t.stackAt? level with
  | none => exact ht
  | some u => exact hI.pop level ht

theorem preserves_pushFrame (d : Dialog) (id : String) (level : Nat) :
    (pushFrame level fun t => newFrame d id t level).Preserves I := by
  refine preserves_onTurn fun t ht => ?_
  cases hu : t.stackAt? level with
  | none => exact ht
  | some u => exact hI.push d id (by rw [hu]; rfl) ht

theorem preserves_writeSeeds (level : Nat) (seeds : List (String × Json)) :
    (writeSeeds level seeds).Preserves I := by
  induction seeds with
  | nil => exact preserves_pure ()
  | cons seed rest ih => exact preserves_bind (preserves_set hI level _ _) fun _ => ih

theorem preserves_writeOutput (v : View) (d : Dialog) (result : Option Json) :
    (writeOutput v d result).Preserves I := by
  unfold writeOutput
  split
  · refine preserves_bind (preserves_ofExcept _) fun p => preserves_turn fun t => ?_
    split
    · exact preserves_set hI v.level _ _
    · exact preserves_pure ()
  · exact preserves_pure ()

include h

theorem preserves_pushAndBegin (v : View) (d : Dialog) (id : String)
    (inputs : List (String × Json)) (options : Option Json) :
    (pushAndBegin caller v d id inputs options).Preserves I := by
  unfold pushAndBegin
  refine preserves_turn fun t => preserves_bind (preserves_pushFrame hI d id v.level) fun _ => ?_
  refine preserves_bind (preserves_attempt ?_) fun outcome => ?_
  · exact preserves_bind (preserves_writeSeeds hI v.level _) fun _ => h v d _
  · cases outcome with
    | ok result => exact preserves_pure result
    | error e =>
      refine preserves_bind (preserves_modifyTurn fun t ht => ?_) fun _ => preserves_throw e
      exact hI.truncate v.level _ ht

theorem preserves_begin (v : View) (id : String) (options : Option Json) :
    (begin caller v id options).Preserves I := by
  unfold begin
  cases lookUp v id with
  | error e => exact preserves_throw e
  | ok d =>
    refine preserves_turn fun t => preserves_bind (preserves_ofExcept _) fun inputs => ?_
    exact preserves_pushAndBegin hI h v d id inputs options

theorem preserves_endActive (v : View) (reason : Reason) (result : Option Json) :
    (endActive caller v reason result).Preserves I := by
  unfold endActive
  refine preserves_turn fun t => ?_
  cases t.active? v.level with
  | none => exact preserves_pure ()
  | some f =>
    cases hd : v.find? f.id with
    | none =>
      simp only [hd]
      exact preserves_bind (preserves_popFrame hI v.level) fun _ => preserves_pure ()
    | some d =>
      simp only [hd]
      refine preserves_bind (h v d _) fun _ => ?_
      refine preserves_bind (preserves_popFrame hI v.level) fun _ => ?_
      exact preserves_writeOutput hI v d result

theorem preserves_finish (v : View) (result : Option Json) :
    (finish caller v result).Preserves I := by
  unfold finish
  refine preserves_turn fun t => ?_
  split
  · exact preserves_pure _
  · refine preserves_bind (preserves_endActive hI h v .ended result) fun _ => ?_
    refine preserves_turn fun t' => ?_
    cases t'.active? v.level with
    | none => exact preserves_pure _
    | some f =>
      cases hd : registered v f .resuming with
      | error e => simpa only [hd] using preserves_throw e
      | ok d => simpa only [hd] using h v d _

theorem preserves_clear (v : View) (reason : Reason) (fuel : Nat) :
    (clear caller v reason fuel).Preserves I := by
  induction fuel with
  | zero => exact preserves_exhausted
  | succ fuel ih =>
    rw [clear]
    refine preserves_turn fun t => ?_
    split
    · exact preserves_pure ()
    · exact preserves_bind (preserves_endActive hI h v reason none) fun _ => ih

omit hI

theorem preserves_advance (v : View) : (advance caller v).Preserves I := by
  unfold advance
  refine preserves_turn fun t => ?_
  cases t.active? v.level with
  | none => exact preserves_pure _
  | some f =>
    cases hd : registered v f .continuing with
    | error e => simpa only [hd] using preserves_throw e
    | ok d => simpa only [hd] using h v d .advance

theorem preserves_offer (event : Event) (v : View) {outward : Eval Bool}
    (ho : outward.Preserves I) : (offer caller event v outward).Preserves I := by
  unfold offer
  refine preserves_turn fun t => ?_
  cases t.active? v.level with
  | none => exact preserves_pure _
  | some f =>
    cases hd : v.find? f.id with
    | none => simpa only [hd] using preserves_pure false
    | some d =>
      simp only [hd]
      refine preserves_bind (h v d _) fun handled => ?_
      cases handled with
      | true => exact preserves_pure _
      | false =>
        refine preserves_bind ho fun handled => ?_
        cases handled with
        | true => exact preserves_pure _
        | false => exact h v d _

theorem preserves_dispatch (event : Event) (own : DialogSet) (outer : List DialogSet) :
    (dispatch caller event own outer).Preserves I := by
  induction outer generalizing own with
  | nil => exact preserves_offer h event _ (preserves_pure false)
  | cons next outer ih =>
    apply preserves_offer h event
    cases event.bubble with
    | true => exact ih next
    | false => exact preserves_pure false

theorem preserves_emit (v : View) (event : Event) (fromLeaf : Bool) :
    (emit caller v event fromLeaf).Preserves I :=
  preserves_turn fun _ => preserves_dispatch h event _ _

theorem preserves_reprompt (v : View) : (reprompt caller v).Preserves I := by
  unfold reprompt
  refine preserves_bind (preserves_emit h v _ false) fun handled => ?_
  split
  · exact preserves_pure _
  · refine preserves_turn fun t => ?_
    cases t.active? v.level with
    | none => exact preserves_pure _
    | some f =>
      cases hd : registered v f .reprompting with
      | error e => simpa only [hd] using preserves_throw e
      | ok d =>
        simp only [hd]
        exact preserves_bind (h v d _) fun _ => preserves_pure _

include hI

theorem preserves_cancelOutward (event : Event) (v : View) (offered : Bool) (fuel : Nat) :
    (cancelOutward caller event v offered fuel).Preserves I := by
  induction fuel generalizing v offered with
  | zero => exact preserves_exhausted
  | succ fuel ih =>
    rw [cancelOutward]
    refine preserves_turn fun t => ?_
    split
    · cases v.parent? with
      | none => exact preserves_pure ()
      | some p => exact ih p true
    · have rest (handled : Bool) :
          (if handled then pure () else do
            endActive caller v .cancelled none
            cancelOutward caller event v true fuel : Eval Unit).Preserves I := by
        split
        · exact preserves_pure ()
        · exact preserves_bind (preserves_endActive hI h v .cancelled none) fun _ => ih v true
      split
      · exact preserves_bind (preserves_emit h v event false) rest
      · exact preserves_bind (preserves_pure false) rest

theorem preserves_cancelAll (v : View) (name : String) (value : Option Json) (fuel : Nat) :
    (cancelAll caller v name value fuel).Preserves I := by
  unfold cancelAll
  refine preserves_turn fun t => ?_
  split
  · exact preserves_pure _
  · exact preserves_bind (preserves_cancelOutward hI h _ v false fuel) fun _ => preserves_pure _

end

/-! ## Runs without failed replacements -/

/-- Replaces as the engine does, but has no answer where the replaced frame would be put
back. -/
def replaceForGood (caller : Caller) (v : View) (id : String) (options : Option Json) :
    Eval TurnResult :=
  match lookUp v id with
  | .error e => throw e
  | .ok d => do
    let inputs ← Eval.ofExcept (readInputs (← Eval.turn) v.level d.inputs)
    Eval.onTurn (·.set v.level "turn.repeatDialogId" (.string id))
    let replaced ← popFrame v.level
    match ← Eval.attempt (pushAndBegin caller v d id inputs options) with
    | .ok result => return result
    | .error e => if replaced.isSome then Eval.exhausted else throw e

def performForGood (caller : Caller) (fuel : Nat) (self : Dialog) (v : View) :
    Call α → Eval α
  | .replace id options => replaceForGood caller v id options
  | c => perform caller fuel self v c

/-- Interprets a program with a way to perform its calls. -/
def interpretWith (run : {β : Type} → View → Call β → Eval β) (v : View) : Program α → Eval α
  | .done outcome => Eval.ofExcept outcome
  | .look next => do interpretWith run v (next (v.sight (← Eval.turn)))
  | .edit e next => do interpretWith run v (next (← Eval.attempt (Eval.onTurn (e.apply v.level))))
  | .call c next => do interpretWith run v (next (← Eval.attempt (run v c)))
  | .note content next => do
    Eval.log (.noted content)
    interpretWith run v next
  | .within place body next => do
    match v.at? (← Eval.turn) place with
    | none => interpretWith run v (next none)
    | some inner =>
      interpretWith run v (next (some (← Eval.attempt (interpretWith run inner body))))

/-- Calls a hook as the engine does, but has no answer when a replacement would put a frame
back. -/
def callForGood : Nat → Caller
  | 0, _, _, _ => Eval.exhausted
  | fuel + 1, v, d, hook => do
    let turn ← Eval.turn
    Eval.entered (.called { dialog := d.id, traced := d.traced, level := v.level, turn, hook })
      (interpretWith (performForGood (callForGood fuel) fuel d) v (d.program hook))

/-- Runs a program from outside any hook, with no answer when a replacement would put a
frame back. -/
def evaluateForGood (fuel : Nat) (v : View) (p : Program α) : Eval α :=
  interpretWith (performForGood (callForGood fuel) fuel bystander) v p

theorem interpretWith_perform (caller : Caller) (fuel : Nat) (self : Dialog) (v : View)
    (p : Program α) :
    interpretWith (perform caller fuel self) v p = interpret caller fuel self v p := by
  induction p generalizing v with
  | done outcome => rfl
  | look next ih => simp only [interpretWith, interpret, ih]
  | edit e next ih => simp only [interpretWith, interpret, ih]
  | call c next ih => simp only [interpretWith, interpret, ih]
  | note content next ih => simp only [interpretWith, interpret, ih]
  | within place body next ihBody ih =>
    funext s
    simp only [interpretWith, interpret, Eval.bind_apply, Eval.turn]
    cases v.at? s.turn place with
    | none => exact congrFun (ih none v) s
    | some inner => simp only [Eval.bind_apply, ihBody, ih]

section
variable {run run' : {β : Type} → View → Call β → Eval β}

theorem interpretWith_sub (h : ∀ {β : Type} v (c : Call β), (run v c).Sub (run' v c)) (v : View)
    (p : Program α) : (interpretWith run v p).Sub (interpretWith run' v p) := by
  induction p generalizing v with
  | done outcome => exact .refl _
  | look next ih => exact bind_sub (.refl _) fun turn => ih _ v
  | edit e next ih => exact bind_sub (.refl _) fun r => ih r v
  | call c next ih => exact bind_sub (attempt_sub (h v c)) fun r => ih r v
  | note content next ih => exact bind_sub (.refl _) fun _ => ih v
  | within place body next ihBody ih =>
    rw [interpretWith, interpretWith]
    refine bind_sub (.refl _) fun turn => ?_
    cases v.at? turn place with
    | none => exact ih none v
    | some inner => exact bind_sub (attempt_sub (ihBody inner)) fun r => ih (some r) v

end

theorem replaceForGood_sub {caller caller' : Caller} (h : caller.Sub caller') (v : View)
    (id : String) (options : Option Json) :
    (replaceForGood caller v id options).Sub (replace caller' v id options) := by
  unfold replaceForGood replace
  cases lookUp v id with
  | error e => exact .refl _
  | ok d =>
    refine bind_sub (.refl _) fun t => bind_sub (.refl _) fun inputs => ?_
    refine bind_sub (.refl _) fun _ => bind_sub (.refl _) fun replaced => ?_
    intro s r hr
    refine bind_sub (attempt_sub (pushAndBegin_sub h v d id inputs options)) (fun outcome => ?_)
      s r hr
    cases outcome with
    | ok result => exact .refl _
    | error e =>
      cases replaced with
      | none => exact .refl _
      | some f => exact exhausted_sub _

theorem performForGood_sub {caller caller' : Caller} (h : caller.Sub caller') (fuel : Nat)
    (self : Dialog) (v : View) (c : Call α) :
    (performForGood caller fuel self v c).Sub (perform caller' fuel self v c) := by
  have hsub := perform_sub h (Nat.le_refl fuel) self v c
  cases c with
  | replace id options => exact replaceForGood_sub h v id options
  | begin | advance | finish | cancelAll | clear | reprompt | emit | next => exact hsub

theorem callForGood_sub (fuel : Nat) : (callForGood fuel).Sub (call fuel) := by
  induction fuel with
  | zero => exact fun v d hook => exhausted_sub _
  | succ fuel ih =>
    intro v d hook
    refine bind_sub (.refl _) fun turn => entered_sub _ ?_
    rw [← interpretWith_perform]
    exact interpretWith_sub (fun v c => performForGood_sub ih fuel d v c) v _

/-- A run without failed replacements is a run of the engine. -/
theorem evaluateForGood_sub (fuel : Nat) (v : View) (p : Program α) :
    (evaluateForGood fuel v p).Sub (evaluate fuel v p) := by
  rw [evaluate, ← interpretWith_perform]
  exact interpretWith_sub (fun v c => performForGood_sub (callForGood_sub fuel) fuel _ v c) v p

section
variable {I : Turn → Prop} (hI : Turn.Invariant I)
include hI

theorem preserves_replaceForGood {caller : Caller} (h : caller.Preserves I) (v : View)
    (id : String) (options : Option Json) :
    (replaceForGood caller v id options).Preserves I := by
  unfold replaceForGood
  cases lookUp v id with
  | error e => exact preserves_throw e
  | ok d =>
    refine preserves_turn fun t => preserves_bind (preserves_ofExcept _) fun inputs => ?_
    refine preserves_bind (preserves_set hI v.level _ _) fun _ => ?_
    refine preserves_bind (preserves_popFrame hI v.level) fun replaced => ?_
    refine preserves_bind (preserves_attempt (preserves_pushAndBegin hI h v d id inputs options))
      fun outcome => ?_
    cases outcome with
    | ok result => exact preserves_pure result
    | error e =>
      cases replaced with
      | none => exact preserves_throw e
      | some f => exact preserves_exhausted

theorem preserves_performForGood {caller : Caller} (h : caller.Preserves I) (fuel : Nat)
    (self : Dialog) (v : View) (c : Call α) :
    (performForGood caller fuel self v c).Preserves I := by
  cases c with
  | begin id options => exact preserves_begin hI h v id options
  | replace id options => exact preserves_replaceForGood hI h v id options
  | advance => exact preserves_advance h v
  | finish result => exact preserves_finish hI h v result
  | cancelAll event value => exact preserves_cancelAll hI h v event value fuel
  | clear reason => exact preserves_clear hI h v reason fuel
  | reprompt => exact preserves_reprompt h v
  | emit name value bubble fromLeaf => exact preserves_emit h v _ fromLeaf
  | next result => exact h v self _

theorem preserves_interpretWith {run : {β : Type} → View → Call β → Eval β}
    (h : ∀ {β : Type} v (c : Call β), (run v c).Preserves I) (v : View) (p : Program α) :
    (interpretWith run v p).Preserves I := by
  induction p generalizing v with
  | done outcome => exact preserves_ofExcept outcome
  | look next ih => exact preserves_turn fun t => ih _ v
  | edit e next ih =>
    have hedit := preserves_onTurn fun t (ht : I t) => hI.edit e v.level ht
    exact preserves_bind (preserves_attempt hedit) fun r => ih r v
  | call c next ih => exact preserves_bind (preserves_attempt (h v c)) fun r => ih r v
  | note content next ih => exact preserves_bind (preserves_log content) fun _ => ih v
  | within place body next ihBody ih =>
    rw [interpretWith]
    refine preserves_turn fun t => ?_
    cases v.at? t place with
    | none => exact ih none v
    | some inner =>
      exact preserves_bind (preserves_attempt (ihBody inner)) fun r => ih (some r) v

theorem preserves_callForGood (fuel : Nat) : (callForGood fuel).Preserves I := by
  induction fuel with
  | zero => exact fun v d hook => preserves_exhausted
  | succ fuel ih =>
    intro v d hook
    refine preserves_entered v d hook ?_
    exact preserves_interpretWith hI (fun v c => preserves_performForGood hI ih fuel d v c) v _

/-- A run without failed replacements preserves an invariant. -/
theorem preserves_evaluateForGood (fuel : Nat) (v : View) (p : Program α) :
    (evaluateForGood fuel v p).Preserves I :=
  preserves_interpretWith hI
    (fun v c => preserves_performForGood hI (preserves_callForGood hI fuel) fuel _ v c) v p

end
end Engine
end Colloquy
