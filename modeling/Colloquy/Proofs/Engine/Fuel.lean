import Colloquy.Host

/-!
# Fuel only bounds

An evaluation that answers with some fuel gives the same answer with more. So the
amount of fuel decides whether there is an answer and never which one, for a call of
a hook, for a program and for a whole turn. An evaluation halts when it always has an
answer; the operations of the engine halt where the hooks they call do.
-/
namespace Colloquy

namespace Eval

/-- Whatever the first evaluation answers, the second answers too. -/
def Sub (x y : Eval α) : Prop := ∀ s r, x s = some r → y s = some r

theorem Sub.refl (x : Eval α) : x.Sub x := fun _ _ h => h

theorem exhausted_sub (x : Eval α) : (exhausted : Eval α).Sub x := by
  intro s r h
  cases h

theorem bind_apply (x : Eval α) (f : α → Eval β) (s : Session) :
    (x >>= f) s = match x s with
      | none => none
      | some (.ok a, s) => f a s
      | some (.error e, s) => some (.error e, s) := by
  change (x s).bind _ = _
  cases x s with
  | none => rfl
  | some r =>
    obtain ⟨outcome, s⟩ := r
    cases outcome <;> rfl

/-- What is evaluated first fails, or its value is gone on with. -/
theorem bind_cases {x : Eval α} {f : α → Eval β} {s s' : Session} {outcome : Except Fault β}
    (h : (x >>= f) s = some (outcome, s')) :
    (∃ e, x s = some (.error e, s') ∧ outcome = .error e) ∨
      ∃ a s₁, x s = some (.ok a, s₁) ∧ f a s₁ = some (outcome, s') := by
  rw [bind_apply] at h
  cases hx : x s with
  | none => simp [hx] at h
  | some first =>
    obtain ⟨result, s₁⟩ := first
    cases result with
    | ok a => exact .inr ⟨a, s₁, rfl, by simpa only [hx] using h⟩
    | error e =>
      simp only [hx, Option.some.injEq, Prod.mk.injEq] at h
      obtain ⟨rfl, rfl⟩ := h
      exact .inl ⟨e, rfl, rfl⟩

theorem bind_sub {x y : Eval α} {f g : α → Eval β} (h : x.Sub y) (hf : ∀ a, (f a).Sub (g a)) :
    (x >>= f).Sub (y >>= g) := by
  intro s r hr
  rw [bind_apply] at hr ⊢
  cases hx : x s with
  | none => simp [hx] at hr
  | some first =>
    rw [h s first hx]
    obtain ⟨outcome, s⟩ := first
    cases outcome with
    | ok a =>
      simp only [hx] at hr
      exact hf a s r hr
    | error e => simpa only [hx] using hr

theorem attempt_sub {x y : Eval α} (h : x.Sub y) : x.attempt.Sub y.attempt := by
  intro s r hr
  obtain ⟨first, hx, rfl⟩ := Option.map_eq_some_iff.mp hr
  simp [attempt, h s first hx]

theorem entered_sub {x y : Eval α} (entry : Except Fault α → List Entry → Entry) (h : x.Sub y) :
    (entered entry x).Sub (entered entry y) := by
  intro s r hr
  obtain ⟨first, hx, rfl⟩ := Option.map_eq_some_iff.mp hr
  simp [entered, h _ first hx]

end Eval

/-- Whatever hooks answer to the first caller, they answer to the second too. -/
def Caller.Sub (caller caller' : Caller) : Prop :=
  ∀ v d hook, (caller v d hook).Sub (caller' v d hook)

namespace Engine

section
variable {caller caller' : Caller} (h : caller.Sub caller') (v : View)
include h

theorem pushAndBegin_sub (d : Dialog) (id : String) (inputs : List (String × Json))
    (options : Option Json) :
    (pushAndBegin caller v d id inputs options).Sub
      (pushAndBegin caller' v d id inputs options) := by
  unfold pushAndBegin
  refine Eval.bind_sub (.refl _) fun turn => Eval.bind_sub (.refl _) fun _ => ?_
  refine Eval.bind_sub (Eval.attempt_sub ?_) fun outcome => .refl _
  exact Eval.bind_sub (.refl _) fun _ => h v d _

theorem begin_sub (id : String) (options : Option Json) :
    (begin caller v id options).Sub (begin caller' v id options) := by
  unfold begin
  cases lookUp v id with
  | error e => exact .refl _
  | ok d =>
    refine Eval.bind_sub (.refl _) fun turn => Eval.bind_sub (.refl _) fun inputs => ?_
    exact pushAndBegin_sub h v d id inputs options

theorem replace_sub (id : String) (options : Option Json) :
    (replace caller v id options).Sub (replace caller' v id options) := by
  unfold replace
  cases lookUp v id with
  | error e => exact .refl _
  | ok d =>
    refine Eval.bind_sub (.refl _) fun turn => Eval.bind_sub (.refl _) fun inputs => ?_
    refine Eval.bind_sub (.refl _) fun _ => Eval.bind_sub (.refl _) fun replaced => ?_
    refine Eval.bind_sub (.refl _) fun after => Eval.bind_sub ?_ fun outcome => .refl _
    exact Eval.attempt_sub (pushAndBegin_sub h v d id inputs options)

theorem advance_sub : (advance caller v).Sub (advance caller' v) := by
  unfold advance
  refine Eval.bind_sub (.refl _) fun turn => ?_
  cases turn.active? v.level with
  | none => exact .refl _
  | some f =>
    cases hd : registered v f .continuing with
    | error e => simpa only [hd] using Eval.Sub.refl _
    | ok d => simpa only [hd] using h v d .advance

theorem endActive_sub (reason : Reason) (result : Option Json) :
    (endActive caller v reason result).Sub (endActive caller' v reason result) := by
  unfold endActive
  refine Eval.bind_sub (.refl _) fun turn => ?_
  cases turn.active? v.level with
  | none => exact .refl _
  | some f =>
    cases hd : v.find? f.id with
    | none => simpa only [hd] using Eval.Sub.refl _
    | some d =>
      simp only [hd]
      exact Eval.bind_sub (h v d _) fun _ => .refl _

theorem finish_sub (result : Option Json) :
    (finish caller v result).Sub (finish caller' v result) := by
  unfold finish
  refine Eval.bind_sub (.refl _) fun turn => ?_
  by_cases hdepth : turn.depth v.level = 0
  · simpa only [if_pos hdepth] using Eval.Sub.refl _
  · simp only [if_neg hdepth]
    refine Eval.bind_sub (endActive_sub h v .ended result) fun _ => ?_
    refine Eval.bind_sub (.refl _) fun after => ?_
    cases after.active? v.level with
    | none => exact .refl _
    | some f =>
      cases hd : registered v f .resuming with
      | error e => simpa only [hd] using Eval.Sub.refl _
      | ok d => simpa only [hd] using h v d _

theorem clear_sub (reason : Reason) {fuel fuel' : Nat} (hfuel : fuel ≤ fuel') :
    (clear caller v reason fuel).Sub (clear caller' v reason fuel') := by
  induction fuel generalizing fuel' with
  | zero => exact Eval.exhausted_sub _
  | succ fuel ih =>
    obtain ⟨fuel', rfl⟩ : ∃ n, fuel' = n + 1 := ⟨fuel' - 1, by omega⟩
    unfold clear
    refine Eval.bind_sub (.refl _) fun turn => ?_
    by_cases hdepth : turn.depth v.level = 0
    · simpa only [if_pos hdepth] using Eval.Sub.refl _
    · simp only [if_neg hdepth]
      exact Eval.bind_sub (endActive_sub h v reason none) fun _ => ih (by omega)

theorem offer_sub (event : Event) {outward outward' : Eval Bool} (ho : outward.Sub outward') :
    (offer caller event v outward).Sub (offer caller' event v outward') := by
  unfold offer
  refine Eval.bind_sub (.refl _) fun turn => ?_
  cases turn.active? v.level with
  | none => exact .refl _
  | some f =>
    cases hd : v.find? f.id with
    | none => simpa only [hd] using Eval.Sub.refl _
    | some d =>
      simp only [hd]
      refine Eval.bind_sub (h v d _) fun handled => ?_
      cases handled with
      | true => exact .refl _
      | false =>
        refine Eval.bind_sub ho fun handled => ?_
        cases handled with
        | true => exact .refl _
        | false => exact h v d _

end

section
variable {caller caller' : Caller} (h : caller.Sub caller')
include h

theorem dispatch_sub (event : Event) (own : DialogSet) (outer : List DialogSet) :
    (dispatch caller event own outer).Sub (dispatch caller' event own outer) := by
  induction outer generalizing own with
  | nil => exact offer_sub h _ event (.refl _)
  | cons next outer ih =>
    apply offer_sub h _ event
    cases event.bubble with
    | true => exact ih next
    | false => exact .refl _

theorem emit_sub (v : View) (event : Event) (fromLeaf : Bool) :
    (emit caller v event fromLeaf).Sub (emit caller' v event fromLeaf) :=
  Eval.bind_sub (.refl _) fun _ => dispatch_sub h event _ _

theorem cancelOutward_sub (event : Event) (v : View) (offer : Bool) {fuel fuel' : Nat}
    (hfuel : fuel ≤ fuel') :
    (cancelOutward caller event v offer fuel).Sub (cancelOutward caller' event v offer fuel') := by
  induction fuel generalizing v offer fuel' with
  | zero => exact Eval.exhausted_sub _
  | succ fuel ih =>
    obtain ⟨fuel', rfl⟩ : ∃ n, fuel' = n + 1 := ⟨fuel' - 1, by omega⟩
    unfold cancelOutward
    refine Eval.bind_sub (.refl _) fun turn => ?_
    by_cases hdepth : turn.depth v.level = 0
    · simp only [if_pos hdepth]
      cases v.parent? with
      | none => exact .refl _
      | some p => exact ih p true (by omega)
    · simp only [if_neg hdepth]
      have rest (handled : Bool) :
          (if handled then pure () else do
            endActive caller v .cancelled none
            cancelOutward caller event v true fuel : Eval Unit).Sub
          (if handled then pure () else do
            endActive caller' v .cancelled none
            cancelOutward caller' event v true fuel') := by
        by_cases handled : handled = true
        · simpa only [if_pos handled] using Eval.Sub.refl _
        · simp only [if_neg handled]
          exact Eval.bind_sub (endActive_sub h v _ _) fun _ => ih v true (by omega)
      by_cases offered : offer = true
      · simp only [if_pos offered]
        exact Eval.bind_sub (emit_sub h v event false) rest
      · simp only [if_neg offered]
        exact Eval.bind_sub (.refl _) rest

theorem cancelAll_sub (v : View) (name : String) (value : Option Json) {fuel fuel' : Nat}
    (hfuel : fuel ≤ fuel') :
    (cancelAll caller v name value fuel).Sub (cancelAll caller' v name value fuel') := by
  unfold cancelAll
  refine Eval.bind_sub (.refl _) fun turn => ?_
  by_cases hempty : (turn.chain v.level).all List.isEmpty = true
  · simpa only [if_pos hempty] using Eval.Sub.refl _
  · simp only [if_neg hempty]
    exact Eval.bind_sub (cancelOutward_sub h _ v false hfuel) fun _ => .refl _

theorem reprompt_sub (v : View) : (reprompt caller v).Sub (reprompt caller' v) := by
  unfold reprompt
  refine Eval.bind_sub (emit_sub h v _ false) fun handled => ?_
  cases handled with
  | true => exact .refl _
  | false =>
    refine Eval.bind_sub (.refl _) fun turn => ?_
    cases turn.active? v.level with
    | none => exact .refl _
    | some f =>
      cases hd : registered v f .reprompting with
      | error e => simpa only [hd] using Eval.Sub.refl _
      | ok d =>
        simp only [hd]
        exact Eval.bind_sub (h v d _) fun _ => .refl _

theorem perform_sub {fuel fuel' : Nat} (hfuel : fuel ≤ fuel') (self : Dialog) (v : View)
    (c : Call α) : (perform caller fuel self v c).Sub (perform caller' fuel' self v c) := by
  cases c with
  | begin id options => exact begin_sub h v id options
  | replace id options => exact replace_sub h v id options
  | advance => exact advance_sub h v
  | finish result => exact finish_sub h v result
  | cancelAll event value => exact cancelAll_sub h v event value hfuel
  | clear reason => exact clear_sub h v reason hfuel
  | reprompt => exact reprompt_sub h v
  | emit name value bubble fromLeaf => exact emit_sub h v _ fromLeaf
  | next result => exact h v self _

theorem interpret_sub {fuel fuel' : Nat} (hfuel : fuel ≤ fuel') (self : Dialog) (v : View)
    (p : Program α) : (interpret caller fuel self v p).Sub (interpret caller' fuel' self v p) := by
  induction p generalizing v with
  | done outcome => exact .refl _
  | look next ih => exact Eval.bind_sub (.refl _) fun turn => ih _ v
  | edit e next ih => exact Eval.bind_sub (.refl _) fun r => ih r v
  | call c next ih =>
    exact Eval.bind_sub (Eval.attempt_sub (perform_sub h hfuel self v c)) fun r => ih r v
  | note content next ih => exact Eval.bind_sub (.refl _) fun _ => ih v
  | within place body next ihBody ih =>
    rw [interpret, interpret]
    refine Eval.bind_sub (.refl _) fun turn => ?_
    cases v.at? turn place with
    | none => exact ih none v
    | some inner =>
      exact Eval.bind_sub (Eval.attempt_sub (ihBody inner)) fun r => ih (some r) v

end

theorem call_sub {fuel fuel' : Nat} (hfuel : fuel ≤ fuel') : (call fuel).Sub (call fuel') := by
  induction fuel generalizing fuel' with
  | zero => exact fun v d hook => Eval.exhausted_sub _
  | succ fuel ih =>
    obtain ⟨fuel', rfl⟩ : ∃ n, fuel' = n + 1 := ⟨fuel' - 1, by omega⟩
    intro v d hook
    refine Eval.bind_sub (.refl _) fun turn => Eval.entered_sub _ ?_
    exact interpret_sub (ih (by omega)) (by omega) d v _

/-- Two answers of a program with different fuel are the same: the larger fuel gives both. -/
theorem interpret_unique {n n' : Nat} {self : Dialog} {v : View} {p : Program α} {s : Session}
    {r r' : Except Fault α × Session} (h : interpret (call n) n self v p s = some r)
    (h' : interpret (call n') n' self v p s = some r') : r = r' := by
  have hleft := Nat.le_max_left n n'
  have hright := Nat.le_max_right n n'
  have hfirst := interpret_sub (call_sub hleft) hleft self v p s r h
  have hsecond := interpret_sub (call_sub hright) hright self v p s r' h'
  exact Option.some.inj (hfirst.symm.trans hsecond)

end Engine

namespace Host

theorem runStack_sub (h : Host) {fuel fuel' : Nat} (hfuel : fuel ≤ fuel') (activity : Json) :
    (h.runStack fuel activity).Sub (h.runStack fuel' activity) := by
  have hcall := Engine.call_sub hfuel
  have goOn : (do
      let result ← Engine.advance (Engine.call fuel) h.view
      if result.status = .empty then Engine.begin (Engine.call fuel) h.view h.root none
      else pure result : Eval TurnResult).Sub (do
      let result ← Engine.advance (Engine.call fuel') h.view
      if result.status = .empty then Engine.begin (Engine.call fuel') h.view h.root none
      else pure result) := by
    refine Eval.bind_sub (Engine.advance_sub hcall h.view) fun result => ?_
    by_cases hempty : result.status = .empty
    · simpa only [if_pos hempty] using Engine.begin_sub hcall h.view h.root none
    · simpa only [if_neg hempty] using Eval.Sub.refl _
  unfold runStack
  refine Eval.bind_sub (.refl _) fun turn => ?_
  by_cases hdepth : 0 < turn.depth 0
  · simp only [if_pos hdepth]
    refine Eval.bind_sub (Engine.emit_sub hcall h.view _ true) fun handled => ?_
    by_cases handled : handled = true
    · simpa only [if_pos handled] using Eval.Sub.refl _
    · simpa only [if_neg handled] using goOn
  · simpa only [if_neg hdepth] using goOn

theorem respond_mono (h : Host) {fuel fuel' : Nat} (hfuel : fuel ≤ fuel') {a : Activity}
    {stored : Snapshot} {answer : Answer} (hr : h.respond fuel a stored = some answer) :
    h.respond fuel' a stored = some answer := by
  unfold respond at hr ⊢
  cases hstart : Turn.start a stored h.settings with
  | error e => simpa only [hstart] using hr
  | ok turn =>
    simp only [hstart] at hr ⊢
    obtain ⟨end_, hrun, rfl⟩ := Option.map_eq_some_iff.mp hr
    rw [runStack_sub h hfuel _ _ _ hrun]
    rfl

theorem handle_mono (h : Host) {fuel fuel' : Nat} (hfuel : fuel ≤ fuel') {store : Store σ}
    {a : Activity} {kept : σ} {result : Except Fault Outcome × List Entry × σ}
    (hr : h.handle fuel store a kept = some result) :
    h.handle fuel' store a kept = some result := by
  unfold handle at hr ⊢
  cases hload : store.load a.conversation kept with
  | mk found kept =>
    simp only [hload] at hr ⊢
    cases found with
    | error e => exact hr
    | ok found =>
      obtain ⟨answer, hanswer, rfl⟩ := Option.map_eq_some_iff.mp hr
      simp only [respond_mono h hfuel hanswer, Option.map_some]

end Host
/-! ## Halting -/

namespace Eval
/-- There is an answer, whatever the session. -/
def Halts (x : Eval α) : Prop := ∀ s, (x s).isSome

theorem bind_halts {x : Eval α} {f : α → Eval β} (hx : x.Halts) (hf : ∀ a, (f a).Halts) :
    (x >>= f).Halts := by
  intro s
  rw [bind_apply]
  obtain ⟨⟨outcome, after⟩, hsome⟩ := Option.isSome_iff_exists.mp (hx s)
  rw [hsome]
  cases outcome with
  | ok a => exact hf a after
  | error e => rfl

theorem attempt_halts {x : Eval α} (hx : x.Halts) : x.attempt.Halts := by
  intro s
  rw [attempt, Option.isSome_map]
  exact hx s

theorem pure_halts (a : α) : (pure a : Eval α).Halts := fun _ => rfl
theorem throw_halts (e : Fault) : (throw e : Eval α).Halts := fun _ => rfl
theorem turn_halts : turn.Halts := fun _ => rfl
theorem onTurn_halts (f : Turn → Except Fault α × Turn) : (onTurn f).Halts := fun _ => rfl

end Eval

namespace Engine

theorem find?_of_lookUp {v : View} {id : String} {d : Dialog} (h : lookUp v id = .ok d) :
    v.find? id = some d := by
  unfold lookUp at h
  split at h
  · cases h
  · cases hd : v.find? id with
    | none => simp [hd] at h
    | some found => simpa [hd] using h

theorem writeSeeds_halts (level : Nat) (seeds : List (String × Json)) :
    (writeSeeds level seeds).Halts := by
  induction seeds with
  | nil => exact Eval.pure_halts _
  | cons seed rest ih => exact Eval.bind_halts (Eval.onTurn_halts _) fun _ => ih

section
variable {caller : Caller} {v : View}
  (h : ∀ {id d}, v.find? id = some d → ∀ hook, (caller v d hook).Halts)
include h

theorem offer_halts (event : Event) {outward : Eval Bool} (ho : outward.Halts) :
    (offer caller event v outward).Halts := by
  unfold offer
  refine Eval.bind_halts Eval.turn_halts fun turn => ?_
  cases turn.active? v.level with
  | none => exact Eval.pure_halts _
  | some f =>
    cases hd : v.find? f.id with
    | none => simpa only [hd] using Eval.pure_halts false
    | some d =>
      simp only [hd]
      refine Eval.bind_halts (h hd _) fun handled => ?_
      cases handled with
      | true => exact Eval.pure_halts _
      | false =>
        refine Eval.bind_halts ho fun handled => ?_
        cases handled with
        | true => exact Eval.pure_halts _
        | false => exact h hd _

theorem advance_halts : (advance caller v).Halts := by
  unfold advance
  refine Eval.bind_halts Eval.turn_halts fun turn => ?_
  cases turn.active? v.level with
  | none => exact Eval.pure_halts _
  | some f =>
    cases hd : v.find? f.id with
    | none => simpa only [registered, hd] using Eval.throw_halts _
    | some d => simpa only [registered, hd] using h hd _

theorem begin_halts (id : String) (options : Option Json) : (begin caller v id options).Halts := by
  unfold begin
  cases hd : lookUp v id with
  | error e => exact Eval.throw_halts e
  | ok d =>
    refine Eval.bind_halts Eval.turn_halts fun turn => ?_
    refine Eval.bind_halts (fun _ => rfl) fun inputs => ?_
    unfold pushAndBegin
    refine Eval.bind_halts Eval.turn_halts fun turn => ?_
    refine Eval.bind_halts (Eval.onTurn_halts _) fun _ => ?_
    refine Eval.bind_halts (Eval.attempt_halts ?_) fun outcome => ?_
    · exact Eval.bind_halts (writeSeeds_halts _ _) fun _ => h (find?_of_lookUp hd) _
    · cases outcome with
      | ok result => exact Eval.pure_halts _
      | error e => exact fun _ => rfl
end
end Engine

end Colloquy
