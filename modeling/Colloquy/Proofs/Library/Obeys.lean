import Colloquy.Proofs.Engine.Fuel
import Colloquy.Proofs.Library.Programs
import Colloquy.Proofs.Shape

/-!
# What evaluations obey

A postcondition of an evaluation holds if it answers: of the value and the shape of the
stack when it succeeds, while a failure is plain. Either way the journal only grows, by
tidy entries: a frame that is told that it ends hosts nothing then.
-/
namespace Colloquy

/-- If the call tells an active frame that it ends, the frame hosts nothing. -/
def HookCall.Idle (c : HookCall) : Prop :=
  ∀ reason, c.hook = .close reason → ∀ f, c.turn.active? c.level = some f → f.children = []

/-- No call in the entry, or during it, ends a frame that hosts others. -/
inductive Entry.Tidy : Entry → Prop
  | called {call : HookCall} {answer : Except Fault call.hook.Reply} {during : List Entry}
      (hcall : call.Idle) (hduring : ∀ e ∈ during, e.Tidy) : Tidy (.called call answer during)
  | noted {content : Json} : Tidy (.noted content)

namespace Eval

/-- The journal grew by tidy entries. -/
def Grown (journal journal' : List Entry) : Prop :=
  ∃ entries, journal' = journal ++ entries ∧ ∀ e ∈ entries, e.Tidy

theorem Grown.refl (journal : List Entry) : Grown journal journal :=
  ⟨[], (List.append_nil journal).symm, List.forall_mem_nil _⟩

theorem Grown.trans {j₁ j₂ j₃ : List Entry} (h : Grown j₁ j₂) (h' : Grown j₂ j₃) :
    Grown j₁ j₃ := by
  obtain ⟨entries, rfl, hentries⟩ := h
  obtain ⟨more, rfl, hmore⟩ := h'
  refine ⟨entries ++ more, List.append_assoc _ _ _, fun e he => ?_⟩
  rcases List.mem_append.mp he with hold | hnew
  · exact hentries e hold
  · exact hmore e hnew

/-- If the evaluation answers, then as `Q` says or with a plain fault. -/
def Obeys (x : Eval α) (s : Session) (Q : α → Stack → Prop) : Prop :=
  ∀ outcome s', x s = some (outcome, s') → Grown s.journal s'.journal ∧
    match outcome with
    | .ok a => Q a s'.turn.shape
    | .error e => e.Plain

variable {s : Session} {Q : α → Stack → Prop}

theorem obeys_mono {x : Eval α} {Q' : α → Stack → Prop} (h : x.Obeys s Q)
    (hQ : ∀ a shape, Q a shape → Q' a shape) : x.Obeys s Q' := by
  intro outcome s' hx
  obtain ⟨hgrown, hpost⟩ := h outcome s' hx
  cases outcome with
  | ok a => exact ⟨hgrown, hQ a _ hpost⟩
  | error e => exact ⟨hgrown, hpost⟩

theorem obeys_exhausted : (exhausted : Eval α).Obeys s Q := by
  intro outcome s' h
  cases h

theorem obeys_pure {a : α} (h : Q a s.turn.shape) : (pure a : Eval α).Obeys s Q := by
  rintro _ _ ⟨⟩
  exact ⟨.refl _, h⟩

theorem obeys_throw {e : Fault} (he : e.Plain) : (throw e : Eval α).Obeys s Q := by
  rintro _ _ ⟨⟩
  exact ⟨.refl _, he⟩

theorem obeys_bind {x : Eval α} {f : α → Eval β} {R : β → Stack → Prop} (hx : x.Obeys s Q)
    (hf : ∀ a s', Q a s'.turn.shape → (f a).Obeys s' R) : (x >>= f).Obeys s R := by
  intro outcome s' h
  rw [bind_apply] at h
  cases hfirst : x s with
  | none => simp [hfirst] at h
  | some first =>
    obtain ⟨result, s₁⟩ := first
    obtain ⟨hgrown, hpost⟩ := hx result s₁ hfirst
    cases result with
    | ok a =>
      simp only [hfirst] at h
      obtain ⟨hgrown', hpost'⟩ := hf a s₁ hpost outcome s' h
      exact ⟨hgrown.trans hgrown', hpost'⟩
    | error e =>
      simp only [hfirst, Option.some.injEq, Prod.mk.injEq] at h
      obtain ⟨rfl, rfl⟩ := h
      exact ⟨hgrown, hpost⟩

/-- What an attempt found: a value as `Q` says, or a plain fault. -/
def Attempted (Q : α → Stack → Prop) (r : Except Fault α) (shape : Stack) : Prop :=
  match r with
  | .ok a => Q a shape
  | .error e => e.Plain

theorem obeys_attempt {x : Eval α} (h : x.Obeys s Q) : x.attempt.Obeys s (Attempted Q) := by
  intro outcome s' hx
  obtain ⟨⟨result, s₁⟩, hfirst, heq⟩ := Option.map_eq_some_iff.mp hx
  obtain ⟨rfl, rfl⟩ := Prod.mk.inj heq
  exact h result s₁ hfirst

/-- Reading the turn changes nothing. -/
theorem obeys_turn {f : Turn → Eval α} (hf : (f s.turn).Obeys s Q) : (turn >>= f).Obeys s Q := hf

theorem obeys_ok {a : β} {f : β → Eval α} (hf : (f a).Obeys s Q) :
    (ofExcept (.ok a) >>= f).Obeys s Q := hf

theorem obeys_onTurn {f : Turn → Except Fault α × Turn} (h : PlainOutcome (f s.turn).1)
    (hQ : ∀ a, (f s.turn).1 = .ok a → Q a (f s.turn).2.shape) : (onTurn f).Obeys s Q := by
  rintro _ _ ⟨⟩
  refine ⟨.refl _, ?_⟩
  cases hresult : (f s.turn).1 with
  | ok a => simpa [hresult] using hQ a hresult
  | error e => simpa [hresult] using h e hresult

theorem obeys_entered {call : HookCall} {x : Eval call.hook.Reply}
    {Q : call.hook.Reply → Stack → Prop} (hcall : call.Idle)
    (h : x.Obeys { s with journal := [] } Q) :
    (entered (Entry.called call) x).Obeys s Q := by
  intro outcome s' hx
  obtain ⟨⟨result, s₁⟩, hfirst, heq⟩ := Option.map_eq_some_iff.mp hx
  obtain ⟨rfl, rfl⟩ := Prod.mk.inj heq
  obtain ⟨⟨entries, hjournal, htidy⟩, hpost⟩ := h result s₁ hfirst
  refine ⟨⟨[.called call result s₁.journal], rfl, fun e he => ?_⟩, hpost⟩
  rw [List.mem_singleton.mp he]
  refine .called hcall fun e he => htidy e ?_
  rw [hjournal] at he
  simpa using he

/-! ## Calm evaluations -/

/-- If the evaluation answers, then plainly, and the shape of the stack is as before. -/
def Calm (x : Eval α) : Prop := ∀ s outcome s', x s = some (outcome, s') →
  Grown s.journal s'.journal ∧ PlainOutcome outcome ∧ s'.turn.shape = s.turn.shape

theorem calm_ofExcept {outcome : Except Fault α} (h : PlainOutcome outcome) :
    (ofExcept outcome).Calm := by
  rintro s _ _ ⟨⟩
  exact ⟨.refl _, h, rfl⟩

theorem calm_onTurn {f : Turn → Except Fault α × Turn}
    (h : ∀ t, PlainOutcome (f t).1 ∧ (f t).2.shape = t.shape) : (onTurn f).Calm := by
  rintro s _ _ ⟨⟩
  exact ⟨.refl _, h s.turn⟩

theorem calm_log (content : Json) : (log (.noted content)).Calm := by
  rintro s _ _ ⟨⟩
  refine ⟨⟨[.noted content], rfl, fun e he => ?_⟩, .ok (), rfl⟩
  rw [List.mem_singleton.mp he]
  exact .noted

theorem calm_turn {f : Turn → Eval α} (hf : ∀ t, (f t).Calm) : (turn >>= f).Calm :=
  fun s => hf s.turn s

theorem calm_bind {x : Eval α} {f : α → Eval β} (hx : x.Calm) (hf : ∀ a, (f a).Calm) :
    (x >>= f).Calm := by
  intro s outcome s' h
  rw [bind_apply] at h
  cases hfirst : x s with
  | none => simp [hfirst] at h
  | some first =>
    obtain ⟨result, s₁⟩ := first
    obtain ⟨hgrown, hplain, hshape⟩ := hx s result s₁ hfirst
    cases result with
    | ok a =>
      simp only [hfirst] at h
      obtain ⟨hgrown', hplain', hshape'⟩ := hf a s₁ outcome s' h
      exact ⟨hgrown.trans hgrown', hplain', hshape'.trans hshape⟩
    | error e =>
      simp only [hfirst, Option.some.injEq, Prod.mk.injEq] at h
      obtain ⟨rfl, rfl⟩ := h
      exact ⟨hgrown, .error (hplain e rfl), hshape⟩

theorem Calm.obeys {x : Eval α} (h : x.Calm) (s : Session) :
    x.Obeys s (fun _ shape => shape = s.turn.shape) := by
  intro outcome s' hx
  obtain ⟨hgrown, hplain, hshape⟩ := h s outcome s' hx
  cases outcome with
  | ok a => exact ⟨hgrown, hshape⟩
  | error e => exact ⟨hgrown, hplain e rfl⟩

theorem Calm.obeys_attempt {x : Eval α} (h : x.Calm) (s : Session) :
    x.attempt.Obeys s (fun r shape => PlainOutcome r ∧ shape = s.turn.shape) := by
  intro outcome s' hx
  obtain ⟨⟨result, s₁⟩, hfirst, heq⟩ := Option.map_eq_some_iff.mp hx
  obtain ⟨rfl, rfl⟩ := Prod.mk.inj heq
  exact h s result s₁ hfirst

/-- What follows an attempt may go on after a plain fault. -/
theorem calm_attempt_bind {x : Eval α} {f : Except Fault α → Eval β} (hx : x.Calm)
    (hf : ∀ r, PlainOutcome r → (f r).Calm) : (x.attempt >>= f).Calm := by
  intro s outcome s' h
  rw [bind_apply] at h
  cases hfirst : x.attempt s with
  | none => simp [hfirst] at h
  | some first =>
    obtain ⟨result, s₁⟩ := first
    obtain ⟨⟨r, s₁⟩, hr, heq⟩ := Option.map_eq_some_iff.mp hfirst
    obtain ⟨rfl, rfl⟩ := Prod.mk.inj heq
    obtain ⟨hgrown, hplain, hshape⟩ := hx s r s₁ hr
    simp only [hfirst] at h
    obtain ⟨hgrown', hplain', hshape'⟩ := hf r hplain s₁ outcome s' h
    exact ⟨hgrown.trans hgrown', hplain', hshape'.trans hshape⟩

end Eval

namespace Engine
variable {caller : Caller} {fuel : Nat} {self : Dialog} {v : View} {s : Session}

/-- A program is run part by part. -/
theorem interpret_bind (p : Program α) (f : α → Program β) :
    interpret caller fuel self v (p >>= f) =
      interpret caller fuel self v p >>= fun a => interpret caller fuel self v (f a) := by
  change interpret caller fuel self v (p.bind f) = _
  induction p with
  | done outcome => cases outcome <;> rfl
  | look next ih => simp [Program.bind, interpret, ih]
  | edit e next ih => simp [Program.bind, interpret, ih]
  | call c next ih => simp [Program.bind, interpret, ih]
  | note content next ih => simp [Program.bind, interpret, ih]
  | within place body next _ ih =>
    simp only [Program.bind, interpret, bind_assoc]
    congr 1
    funext turn
    cases v.at? turn place with
    | none => simp [ih]
    | some inner => simp [ih]

/-- A single operation is performed as it is. -/
theorem interpret_run (caller : Caller) (fuel : Nat) (self : Dialog) (v : View) (c : Call α) :
    interpret caller fuel self v (Program.run c) = perform caller fuel self v c := by
  funext s
  simp only [Program.run, interpret, Eval.bind_apply, Eval.attempt]
  cases perform caller fuel self v c s with
  | none => rfl
  | some r =>
    obtain ⟨outcome, after⟩ := r
    rfl

theorem calm_edit (e : Edit α) (level : Nat) : (Eval.onTurn (e.apply level)).Calm :=
  Eval.calm_onTurn fun t => ⟨e.apply_plain level t, Turn.shape_edit e level t⟩

/-- A quiet program is calm, whatever hooks would do. -/
theorem calm_quiet {p : Program α} (hp : p.Quiet) : (interpret caller fuel self v p).Calm := by
  induction hp generalizing v with
  | done h => exact Eval.calm_ofExcept h
  | look _ ih => exact Eval.calm_turn fun turn => ih (v.sight turn)
  | edit _ ih => exact Eval.calm_attempt_bind (calm_edit _ _) fun r hr => ih r hr
  | note _ ih => exact Eval.calm_bind (Eval.calm_log _) fun _ => ih
  | @within _ _ place body next hbody _ ihBody ih =>
    rw [interpret]
    refine Eval.calm_turn fun turn => ?_
    cases v.at? turn place with
    | none =>
      apply ih none
      rintro _ ⟨⟩
    | some inner =>
      refine Eval.calm_attempt_bind ihBody fun r hr => ih (some r) ?_
      rintro _ ⟨⟩
      exact hr

/-- A program that returns an outcome ends with it, unless it fails plainly before. -/
theorem obeys_returns {r : Except Fault α} {p : Program α} (h : p.Returns r)
    {Q : α → Stack → Prop} (hr : Eval.Attempted Q r s.turn.shape) :
    (interpret caller fuel self v p).Obeys s Q := by
  induction h generalizing s with
  | done =>
    cases r with
    | ok a => exact Eval.obeys_pure hr
    | error e => exact Eval.obeys_throw hr
  | fail he => exact Eval.obeys_throw he
  | look _ ih => exact Eval.obeys_turn (ih _ hr)
  | edit _ ih =>
    refine Eval.obeys_bind ((calm_edit _ _).obeys_attempt s) fun x s' hx => ih x hx.1 ?_
    rw [hx.2]
    exact hr
  | note _ ih =>
    refine Eval.obeys_bind ((Eval.calm_log _).obeys s) fun _ s' hs' => ih ?_
    rw [hs']
    exact hr

end Engine
end Colloquy
