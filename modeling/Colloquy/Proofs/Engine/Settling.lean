import Colloquy.Proofs.Engine.Fuel

/-!
# Coming to an answer

An evaluation settles when it gives one and the same answer with all fuel that is enough.
Where the hooks that an operation calls settle, so does the operation, and what is known of
their answers says what is known of its own.
-/
namespace Colloquy
namespace Eval

/-- With enough fuel there is one answer, and it is as `Q` says. -/
def Settles (x : Nat → Eval α) (s : Session) (Q : Except Fault α → Session → Prop) : Prop :=
  ∃ n outcome s', (∀ fuel ≥ n, x fuel s = some (outcome, s')) ∧ Q outcome s'

variable {s s' : Session} {Q : Except Fault α → Session → Prop}

theorem settles_of_eq {x : Nat → Eval α} {outcome : Except Fault α}
    (h : ∀ fuel, x fuel s = some (outcome, s')) (hQ : Q outcome s') : Settles x s Q :=
  ⟨0, outcome, s', fun fuel _ => h fuel, hQ⟩

theorem settles_mono {x : Nat → Eval α} {Q' : Except Fault α → Session → Prop}
    (h : Settles x s Q) (hQ : ∀ outcome s', Q outcome s' → Q' outcome s') : Settles x s Q' := by
  obtain ⟨n, outcome, s', hx, hpost⟩ := h
  exact ⟨n, outcome, s', hx, hQ outcome s' hpost⟩

/-- Evaluations that agree in a session settle there alike. -/
theorem settles_congr {x y : Nat → Eval α} (h : ∀ fuel, x fuel s = y fuel s)
    (hy : Settles y s Q) : Settles x s Q := by
  obtain ⟨n, outcome, s', hsettled, hpost⟩ := hy
  exact ⟨n, outcome, s', fun fuel hfuel => (h fuel).trans (hsettled fuel hfuel), hpost⟩

/-- With enough fuel there are no two answers. -/
theorem settled_unique {x : Nat → Eval α} {n m : Nat} {r r' : Except Fault α × Session}
    (h : ∀ fuel ≥ n, x fuel s = some r) (h' : ∀ fuel ≥ m, x fuel s = some r') : r = r' := by
  have hfirst := h (max n m) (by omega)
  have hsecond := h' (max n m) (by omega)
  exact Option.some.inj (hfirst.symm.trans hsecond)

end Eval

/-- A call that answers with some fuel settles on that answer. -/
theorem Engine.call_settles {v : View} {d : Dialog} {hook : Hook} {s s' : Session} {n : Nat}
    {outcome : Except Fault hook.Reply} {Q : Except Fault hook.Reply → Session → Prop}
    (h : call n v d hook s = some (outcome, s')) (hQ : Q outcome s') :
    Eval.Settles (fun fuel => call fuel v d hook) s Q :=
  ⟨n, outcome, s', fun _ hfuel => call_sub hfuel v d hook s _ h, hQ⟩

end Colloquy
