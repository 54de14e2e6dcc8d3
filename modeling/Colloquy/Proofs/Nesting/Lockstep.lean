import Colloquy.Proofs.Engine.Fuel

/-!
# Evaluations in lockstep

Two evaluations keep in step when, started from related turns, they answer alike and leave
related turns, or both have no answer. Their journals do not matter.
-/
namespace Colloquy.Eval

/-- From turns related by `R`, either both evaluations have no answer, or both have the same
and the turns they leave are related as `Q` says. -/
def Lockstep (R : Turn → Turn → Prop) (x y : Eval α)
    (Q : Except Fault α → Turn → Turn → Prop) : Prop :=
  ∀ ⦃s s' : Session⦄, R s.turn s'.turn →
    (x s = none ∧ y s' = none) ∨
    ∃ outcome after after', x s = some (outcome, after) ∧ y s' = some (outcome, after') ∧
      Q outcome after.turn after'.turn

variable {R : Turn → Turn → Prop} {x y : Eval α} {Q : Except Fault α → Turn → Turn → Prop}

theorem lockstep_pre {R' : Turn → Turn → Prop} (h : Lockstep R x y Q)
    (hR : ∀ t t', R' t t' → R t t') : Lockstep R' x y Q := fun _ _ hs => h (hR _ _ hs)

theorem lockstep_post {Q' : Except Fault α → Turn → Turn → Prop} (h : Lockstep R x y Q)
    (hQ : ∀ outcome t t', Q outcome t t' → Q' outcome t t') : Lockstep R x y Q' := by
  intro s s' hs
  rcases h hs with hnone | ⟨outcome, after, after', hx, hy, hpost⟩
  · exact .inl hnone
  · exact .inr ⟨outcome, after, after', hx, hy, hQ _ _ _ hpost⟩

theorem lockstep_exhausted : Lockstep R (exhausted : Eval α) exhausted Q :=
  fun _ _ _ => .inl ⟨rfl, rfl⟩

theorem lockstep_ofExcept {outcome : Except Fault α} (h : ∀ t t', R t t' → Q outcome t t') :
    Lockstep R (ofExcept outcome) (ofExcept outcome) Q :=
  fun s s' hs => .inr ⟨outcome, s, s', rfl, rfl, h _ _ hs⟩

theorem lockstep_absurd (h : ∀ t t', ¬ R t t') : Lockstep R x y Q :=
  fun _ _ hs => absurd hs (h _ _)

theorem lockstep_pure {a : α} (h : ∀ t t', R t t' → Q (.ok a) t t') :
    Lockstep R (pure a) (pure a) Q := lockstep_ofExcept h

theorem lockstep_throw {e : Fault} (h : ∀ t t', R t t' → Q (.error e) t t') :
    Lockstep R (throw e) (throw e) Q := lockstep_ofExcept h

theorem lockstep_onTurn {f g : Turn → Except Fault α × Turn}
    (h : ∀ t t', R t t' → (f t).1 = (g t').1 ∧ Q (f t).1 (f t).2 (g t').2) :
    Lockstep R (onTurn f) (onTurn g) Q := by
  intro s s' hs
  obtain ⟨hsame, hpost⟩ := h _ _ hs
  exact .inr ⟨(f s.turn).1, { s with turn := (f s.turn).2 }, { s' with turn := (g s'.turn).2 },
    rfl, by rw [hsame]; rfl, hpost⟩

theorem lockstep_modifyTurn {f g : Turn → Turn} {Q : Except Fault Unit → Turn → Turn → Prop}
    (h : ∀ t t', R t t' → Q (.ok ()) (f t) (g t')) :
    Lockstep R (modifyTurn f) (modifyTurn g) Q :=
  fun _ _ hs => .inr ⟨.ok (), _, _, rfl, rfl, h _ _ hs⟩

theorem lockstep_log {entry : Entry} {Q : Except Fault Unit → Turn → Turn → Prop}
    (h : ∀ t t', R t t' → Q (.ok ()) t t') : Lockstep R (log entry) (log entry) Q :=
  fun _ _ hs => .inr ⟨.ok (), _, _, rfl, rfl, h _ _ hs⟩

theorem lockstep_bind {M : Except Fault α → Turn → Turn → Prop} {f g : α → Eval β}
    {Q : Except Fault β → Turn → Turn → Prop} (h : Lockstep R x y M)
    (hf : ∀ a, Lockstep (M (.ok a)) (f a) (g a) Q)
    (he : ∀ e t t', M (.error e) t t' → Q (.error e) t t') :
    Lockstep R (x >>= f) (y >>= g) Q := by
  intro s s' hs
  rw [bind_apply, bind_apply]
  rcases h hs with ⟨hx, hy⟩ | ⟨outcome, after, after', hx, hy, hpost⟩
  · rw [hx, hy]
    exact .inl ⟨rfl, rfl⟩
  · rw [hx, hy]
    cases outcome with
    | ok a => exact hf a hpost
    | error e => exact .inr ⟨.error e, after, after', rfl, rfl, he e _ _ hpost⟩

/-- What an attempt leaves is what the evaluation leaves. -/
theorem lockstep_attempt (h : Lockstep R x y Q) :
    Lockstep R x.attempt y.attempt fun r t t' => ∃ outcome, r = .ok outcome ∧ Q outcome t t' := by
  intro s s' hs
  simp only [attempt]
  rcases h hs with ⟨hx, hy⟩ | ⟨outcome, after, after', hx, hy, hpost⟩
  · rw [hx, hy]
    exact .inl ⟨rfl, rfl⟩
  · rw [hx, hy]
    exact .inr ⟨.ok outcome, after, after', rfl, rfl, outcome, rfl, hpost⟩

/-- After an attempt both sides go on with the same outcome. -/
theorem lockstep_attempt_bind {M : Except Fault α → Turn → Turn → Prop}
    {f g : Except Fault α → Eval β} {Q : Except Fault β → Turn → Turn → Prop}
    (h : Lockstep R x y M) (hf : ∀ r, Lockstep (M r) (f r) (g r) Q) :
    Lockstep R (x.attempt >>= f) (y.attempt >>= g) Q := by
  refine lockstep_bind (lockstep_attempt h) (fun r => ?_) fun e t t' hpost => ?_
  · refine lockstep_pre (hf r) fun t t' hpost => ?_
    obtain ⟨outcome, heq, hm⟩ := hpost
    obtain rfl := Except.ok.inj heq
    exact hm
  · obtain ⟨outcome, heq, -⟩ := hpost
    cases heq

theorem lockstep_turn {f g : Turn → Eval α}
    (h : ∀ t t', R t t' → Lockstep (fun u u' => u = t ∧ u' = t') (f t) (g t') Q) :
    Lockstep R (turn >>= f) (turn >>= g) Q := fun _ _ hs => h _ _ hs ⟨rfl, rfl⟩

theorem lockstep_entered {entry entry' : Except Fault α → List Entry → Entry}
    (h : Lockstep R x y Q) : Lockstep R (entered entry x) (entered entry' y) Q := by
  intro s s' hs
  have hinner := @h { s with journal := [] } { s' with journal := [] } hs
  simp only [entered]
  rcases hinner with ⟨hx, hy⟩ | ⟨outcome, after, after', hx, hy, hpost⟩
  · rw [hx, hy]
    exact .inl ⟨rfl, rfl⟩
  · rw [hx, hy]
    exact .inr ⟨outcome, _, _, rfl, rfl, hpost⟩

theorem lockstep_ok {a : β} {f g : β → Eval α} (h : Lockstep R (f a) (g a) Q) :
    Lockstep R (ofExcept (.ok a) >>= f) (ofExcept (.ok a) >>= g) Q := h

theorem lockstep_error {e : Fault} {f g : β → Eval α} (h : ∀ t t', R t t' → Q (.error e) t t') :
    Lockstep R (ofExcept (.error e) >>= f) (ofExcept (.error e) >>= g) Q :=
  fun s s' hs => .inr ⟨.error e, s, s', rfl, rfl, h _ _ hs⟩

/-! ## Steps of one side -/

theorem lockstep_turn_right {g : Turn → Eval α}
    (h : ∀ t t', R t t' → Lockstep (fun u u' => u = t ∧ u' = t') x (g t') Q) :
    Lockstep R x (turn >>= g) Q := fun _ _ hs => h _ _ hs ⟨rfl, rfl⟩

theorem lockstep_entered_right {entry : Except Fault α → List Entry → Entry}
    (h : Lockstep R x y Q) : Lockstep R x (entered entry y) Q := by
  intro s s' hs
  have hinner := @h s { s' with journal := [] } hs
  simp only [entered]
  rcases hinner with ⟨hx, hy⟩ | ⟨outcome, after, after', hx, hy, hpost⟩
  · rw [hx, hy]
    exact .inl ⟨rfl, rfl⟩
  · rw [hy]
    exact .inr ⟨outcome, after, _, hx, rfl, hpost⟩

/-- The second side may go on alone as long as it answers the same in the end. -/
theorem lockstep_bind_right {M : Except Fault α → Turn → Turn → Prop} {g : α → Eval α}
    (h : Lockstep R x y M)
    (hg : ∀ a t (s' : Session), M (.ok a) t s'.turn →
      ∃ after', g a s' = some (.ok a, after') ∧ Q (.ok a) t after'.turn)
    (he : ∀ e t t', M (.error e) t t' → Q (.error e) t t') :
    Lockstep R x (y >>= g) Q := by
  intro s s' hs
  rw [bind_apply]
  rcases h hs with ⟨hx, hy⟩ | ⟨outcome, after, after', hx, hy, hpost⟩
  · rw [hy]
    exact .inl ⟨hx, rfl⟩
  · rw [hy]
    cases outcome with
    | ok a =>
      obtain ⟨last, hlast, hq⟩ := hg a after.turn after' hpost
      exact .inr ⟨.ok a, after, last, hx, hlast, hq⟩
    | error e => exact .inr ⟨.error e, after, after', hx, rfl, he e _ _ hpost⟩

/-- The second side may go first alone as long as it succeeds. -/
theorem lockstep_prefix (R' : Turn → Turn → Prop) {z : Eval β} {g : β → Eval α}
    (hz : ∀ t (s' : Session), R t s'.turn → ∃ b after', z s' = some (.ok b, after') ∧
      R' t after'.turn) (hg : ∀ b, Lockstep R' x (g b) Q) : Lockstep R x (z >>= g) Q := by
  intro s s' hs
  obtain ⟨b, after', hfirst, hrelated⟩ := hz s.turn s' hs
  rw [bind_apply, hfirst]
  exact hg b hrelated

/-- The second side may look at its outcome and go on alone to the same. -/
theorem lockstep_attempt_right {M : Except Fault α → Turn → Turn → Prop}
    {g : Except Fault α → Eval α} (h : Lockstep R x y M)
    (hg : ∀ outcome t (s' : Session), M outcome t s'.turn →
      ∃ after', g outcome s' = some (outcome, after') ∧ Q outcome t after'.turn) :
    Lockstep R x (y.attempt >>= g) Q := by
  intro s s' hs
  rw [bind_apply]
  simp only [attempt]
  rcases h hs with ⟨hx, hy⟩ | ⟨outcome, after, after', hx, hy, hpost⟩
  · rw [hy]
    exact .inl ⟨hx, rfl⟩
  · rw [hy]
    obtain ⟨last, hlast, hq⟩ := hg outcome after.turn after' hpost
    exact .inr ⟨outcome, after, last, hx, hlast, hq⟩

end Colloquy.Eval
