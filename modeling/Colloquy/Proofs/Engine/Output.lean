import Colloquy.Proofs.Detachment
import Colloquy.Proofs.Engine.Pushdown
import Colloquy.Proofs.Memory.Held

/-!
# Results that cannot be written

A dialog that ends has been told, and its frame is gone, before its output binding is looked
at. What the binding means is decided by the stack that is left. Where the result cannot be
written, the end fails, and the dialog below is not resumed.
-/
namespace Colloquy

namespace Turn
variable {t t' : Turn} {level : Nat} {binding : String} {value : Json} {p : Path} {e : Fault}

/-- Why a value cannot be written where a binding says: the binding is no path, it leads into
the settings, it names a whole scope, or something other than an object is in its way. -/
inductive Unusable (t : Turn) (level : Nat) (binding : String) : Fault → Prop
  | malformed {e : Fault} (h : Path.parse binding = .error e) : Unusable t level binding e
  | settings {p : Path} (hp : Path.parse binding = .ok p) (hscope : p.scope = .settings) :
      Unusable t level binding (.readOnly .settings)
  | whole {p : Path} (hp : Path.parse binding = .ok p) (hscope : p.scope ≠ .settings)
      (hactive : p.scope = .dialog → (t.active? level).isSome) (hkeys : p.keys = []) :
      Unusable t level binding (.invalidPath p.text)
  | crossed {p : Path} {m : Object} (hp : Path.parse binding = .ok p)
      (hscope : p.scope ≠ .settings) (hm : t.scoped? level p.scope = some m)
      (hobstructed : Object.Obstructed p.keys m) : Unusable t level binding (.invalidPath p.text)

/-- The active frame's memory is there only if there is an active frame. -/
theorem isSome_active?_of_memory? {m : Object} (hm : t.memory? level = some m) :
    (t.active? level).isSome := by
  cases hf : t.active? level with
  | none => simp [memory?, hf] at hm
  | some f => rfl

/-- Whether a value is written depends on the object that its scope stands for, if there is
anything that can hold the object. -/
theorem set_outcome (hp : Path.parse binding = .ok p) (hscope : p.scope ≠ .settings)
    (hactive : p.scope = .dialog → (t.active? level).isSome) (value : Json) :
    (t.set level binding value).1 =
      (p.write value ((t.scoped? level p.scope).getD .empty)).map fun _ => () := by
  rw [set, hp]
  change (t.change level p.scope _).1 = _
  cases hscoped : p.scope with
  | settings => exact absurd hscoped hscope
  | user | conversation | turn =>
    simp only [change, scoped?, Option.getD_some]
    cases p.write value _ <;> rfl
  | dialog =>
    obtain ⟨f, hf⟩ := Option.isSome_iff_exists.mp (hactive hscoped)
    obtain ⟨a, ha⟩ := exists_holder_of_active hf
    obtain ⟨g, hg⟩ := exists_frame_of_holder ha
    have hmemory : t.scoped? level .dialog = g.memory := by
      rw [scoped?, memory?_eq, ha, Option.bind_some, hg, Option.bind_some]
    rw [change_holder ha hg, hmemory]
    cases p.write value (g.memory.getD .empty) <;> rfl

/-- The dialog scope is where a binding is skipped when there is no frame. Elsewhere a value
cannot be written for one of the four reasons, and for no other. -/
theorem set_fails_iff (hactive : ∀ p, Path.parse binding = .ok p → p.scope = .dialog →
    (t.active? level).isSome) :
    (t.set level binding value).1 = .error e ↔ t.Unusable level binding e := by
  constructor
  · intro h
    cases hp : Path.parse binding with
    | error e' =>
      rw [set, hp] at h
      obtain rfl := Except.error.inj h
      exact .malformed hp
    | ok p =>
      by_cases hscope : p.scope = .settings
      · rw [set, hp] at h
        change (t.change level p.scope _).1 = _ at h
        rw [hscope] at h
        obtain rfl := Except.error.inj h
        exact .settings hp hscope
      · rw [set_outcome hp hscope (hactive p hp)] at h
        cases hwrite : p.write value ((t.scoped? level p.scope).getD .empty) with
        | ok m => simp [hwrite, Except.map] at h
        | error e' =>
          rw [hwrite] at h
          obtain rfl := Except.error.inj h
          obtain ⟨rfl, hkeys | hobstructed⟩ := Path.write_eq_error_iff.mp hwrite
          · exact .whole hp hscope (hactive p hp) hkeys
          · cases hm : t.scoped? level p.scope with
            | none =>
              rw [hm] at hobstructed
              exact absurd hobstructed Object.not_obstructed_empty
            | some m =>
              rw [hm] at hobstructed
              exact .crossed hp hscope hm hobstructed
  · intro h
    cases h with
    | malformed h => rw [set, h]
    | settings hp hscope =>
      rw [set, hp]
      change (t.change level _ _).1 = _
      rw [hscope]
      rfl
    | whole hp hscope hactive hkeys =>
      rw [set_outcome hp hscope hactive, Path.write_eq_error_iff.mpr ⟨rfl, .inl hkeys⟩]
      rfl
    | @crossed p m hp hscope hm hobstructed =>
      rw [set_outcome hp hscope (hactive p hp), hm, Option.getD_some,
        Path.write_eq_error_iff.mpr ⟨rfl, .inr hobstructed⟩]
      rfl

end Turn

namespace Engine
variable {caller : Caller} {v : View} {s s₁ : Session} {d : Dialog} {f : Frame} {rest : Stack}
  {binding : String} {value : Json} {e : Fault}

/-! ## Writing the output -/

theorem writeOutput_bound {p : Path} (hout : d.output = some binding)
    (hp : Path.parse binding = .ok p)
    (hactive : p.scope = .dialog → (s.turn.active? v.level).isSome) (value : Json) :
    writeOutput v d (some value) s = some ((s.turn.set v.level binding value).1,
      { s with turn := (s.turn.set v.level binding value).2 }) := by
  have hwritten : p.scope ≠ .dialog ∨ (s.turn.active? v.level).isSome := by
    by_cases hscope : p.scope = .dialog
    · exact .inr (hactive hscope)
    · exact .inl hscope
  simp only [writeOutput, hout, Eval.bind_apply, hp, Eval.ofExcept, Eval.turn, if_pos hwritten]
  rfl

theorem writeOutput_skipped {p : Path} (hout : d.output = some binding)
    (hp : Path.parse binding = .ok p) (hscope : p.scope = .dialog)
    (hidle : s.turn.active? v.level = none) (value : Json) :
    writeOutput v d (some value) s = some (.ok (), s) := by
  have hskipped : ¬ (p.scope ≠ .dialog ∨ (s.turn.active? v.level).isSome) := by
    simp [hscope, hidle]
  simp only [writeOutput, hout, Eval.bind_apply, hp, Eval.ofExcept, Eval.turn, if_neg hskipped]
  rfl

theorem writeOutput_unusable (hout : d.output = some binding)
    (h : s.turn.Unusable v.level binding e) (value : Json) :
    ∃ t, writeOutput v d (some value) s = some (.error e, { s with turn := t }) ∧
      (t = s.turn ∨ Turn.Opened v.level s.turn t) := by
  cases hp : Path.parse binding with
  | error e' =>
    obtain rfl : e' = e := by
      cases h with
      | malformed h => exact Except.error.inj (hp.symm.trans h)
      | settings h | whole h | crossed h => cases hp.symm.trans h
    refine ⟨s.turn, ?_, .inl rfl⟩
    simp only [writeOutput, hout, Eval.bind_apply, hp, Eval.ofExcept]
  | ok p =>
    have hactive : p.scope = .dialog → (s.turn.active? v.level).isSome := by
      intro hscope
      cases h with
      | malformed h => cases hp.symm.trans h
      | settings h hsettings =>
        obtain rfl := Except.ok.inj (hp.symm.trans h)
        cases hscope.symm.trans hsettings
      | whole h _ hactive =>
        obtain rfl := Except.ok.inj (hp.symm.trans h)
        exact hactive hscope
      | crossed h _ hm =>
        obtain rfl := Except.ok.inj (hp.symm.trans h)
        rw [hscope] at hm
        exact Turn.isSome_active?_of_memory? hm
    have hfails : (s.turn.set v.level binding value).1 = .error e := by
      refine (Turn.set_fails_iff fun q hq => ?_).mpr h
      obtain rfl := Except.ok.inj (hp.symm.trans hq)
      exact hactive
    exact ⟨_, by rw [writeOutput_bound hout hp hactive, hfails],
      Turn.set_error (Prod.ext hfails rfl)⟩

theorem writeOutput_usable (hout : d.output = some binding)
    (h : ∀ e, ¬ s.turn.Unusable v.level binding e) (value : Json) :
    ∃ t, writeOutput v d (some value) s = some (.ok (), { s with turn := t }) ∧
      ((t = s.turn ∧ s.turn.active? v.level = none) ∨
        s.turn.set v.level binding value = (.ok (), t)) := by
  cases hp : Path.parse binding with
  | error e => exact absurd (.malformed hp) (h e)
  | ok p =>
    by_cases hskipped : p.scope = .dialog ∧ s.turn.active? v.level = none
    · obtain ⟨hscope, hidle⟩ := hskipped
      exact ⟨s.turn, writeOutput_skipped hout hp hscope hidle value, .inl ⟨rfl, hidle⟩⟩
    · have hactive : p.scope = .dialog → (s.turn.active? v.level).isSome := by
        intro hscope
        exact Option.isSome_iff_ne_none.mpr fun hidle => hskipped ⟨hscope, hidle⟩
      have hwritten : (s.turn.set v.level binding value).1 = .ok () := by
        cases hset : (s.turn.set v.level binding value).1 with
        | ok => rfl
        | error e =>
          refine absurd ((Turn.set_fails_iff fun q hq => ?_).mp hset) (h e)
          obtain rfl := Except.ok.inj (hp.symm.trans hq)
          exact hactive
      exact ⟨_, by rw [writeOutput_bound hout hp hactive, hwritten],
        .inr (Prod.ext hwritten rfl)⟩

/-! ## Handing the result over -/

/-- What follows once a dialog has ended: the one below it is resumed with the result, or the
stack has completed with it. -/
def handOver (caller : Caller) (v : View) (result : Option Json) : Eval TurnResult := do
  match (← Eval.turn).active? v.level with
  | none => return .completed result
  | some f =>
    match registered v f .resuming with
    | .error e => throw e
    | .ok d => caller v d (.resume .ended result)

/-- A dialog ends in three moves: it is told, its frame is taken off and the result is written.
Only then is the result handed over. -/
theorem finish_eq (hu : s.turn.stackAt? v.level = some (f :: rest)) (hd : v.find? f.id = some d)
    (hclose : caller v d (.close .ended) s = some (.ok (), s₁)) {u : Stack}
    (hu₁ : s₁.turn.stackAt? v.level = some u) (result : Option Json) :
    finish caller v result s =
      (writeOutput v d result >>= fun _ => handOver caller v result)
        { s₁ with turn := s₁.turn.pop v.level } := by
  have hdepth : s.turn.depth v.level ≠ 0 := by
    rw [Turn.depth_of_stackAt? hu]
    exact Nat.succ_ne_zero rest.length
  simp only [finish, Eval.bind_apply, Eval.turn, if_neg hdepth, endActive,
    Turn.active?_of_stackAt? hu, hd, hclose, popFrame_eq hu₁]
  rfl

/-- A dialog with an output binding ends with a value. Its end hook changed nothing, and its
frame is gone in any case. If the binding cannot receive the value where that frame was, which
is so for four reasons, then the end fails for that reason: all other frames stand as they did,
at most an empty memory was opened, and no dialog has been resumed. Otherwise the value is
written, or skipped where no frame is left to remember it, and handed over. -/
theorem finish_output (hu : s.turn.stackAt? v.level = some (f :: rest))
    (hd : v.find? f.id = some d) (hout : d.output = some binding)
    (hclose : caller v d (.close .ended) s = some (.ok (), s₁)) (hsame : s₁.turn = s.turn)
    (value : Json) :
    (∀ e, (s.turn.pop v.level).Unusable v.level binding e →
      ∃ t, finish caller v (some value) s = some (.error e, { s₁ with turn := t }) ∧
        (t = s.turn.pop v.level ∨ Turn.Opened v.level (s.turn.pop v.level) t) ∧
        t.shape = Stack.put v.level (Stack.bare rest) s.turn.shape) ∧
    ((∀ e, ¬ (s.turn.pop v.level).Unusable v.level binding e) →
      ∃ t, finish caller v (some value) s =
          handOver caller v (some value) { s₁ with turn := t } ∧
        ((t = s.turn.pop v.level ∧ rest = []) ∨
          (s.turn.pop v.level).set v.level binding value = (.ok (), t))) := by
  have hu₁ : s₁.turn.stackAt? v.level = some (f :: rest) := by rw [hsame, hu]
  have hpop : (s.turn.pop v.level).shape = Stack.put v.level (Stack.bare rest) s.turn.shape :=
    Turn.shape_pop (Turn.level?_shape_of_stackAt? hu)
  constructor
  · intro e hunusable
    obtain ⟨t, hwrite, hleft⟩ := writeOutput_unusable (v := v)
      (s := { s₁ with turn := s.turn.pop v.level }) hout hunusable value
    refine ⟨t, ?_, hleft, ?_⟩
    · rw [finish_eq hu hd hclose hu₁, hsame, Eval.bind_apply, hwrite]
    · rcases hleft with rfl | ⟨-, a, hopen⟩
      · exact hpop
      · rw [Turn.shape_openMemory hopen, hpop]
  · intro husable
    obtain ⟨t, hwrite, hleft⟩ := writeOutput_usable (v := v)
      (s := { s₁ with turn := s.turn.pop v.level }) hout husable value
    refine ⟨t, ?_, ?_⟩
    · rw [finish_eq hu hd hclose hu₁, hsame, Eval.bind_apply, hwrite]
    · rcases hleft with ⟨rfl, hidle⟩ | hset
      · refine .inl ⟨rfl, ?_⟩
        cases rest with
        | nil => rfl
        | cons g below =>
          rw [Turn.active?_of_stackAt? (Turn.stackAt?_pop hu)] at hidle
          cases hidle
      · exact .inr hset

end Engine

/-! ## A vote that cannot be counted -/

def Dialog.ballot : Dialog := { Dialog.patient "ballot" with output := some "settings.vote" }

def View.booth : View where
  own := (Table.empty.insert "base" (.patient "base")).insert "ballot" .ballot

def Session.voting : Session where
  turn := { activity := .message "c" "yes", stack := [.owning "ballot", .owning "base"] }

theorem Path.parse_vote : parse "settings.vote" = .ok ⟨"settings.vote", .settings, ["vote"]⟩ :=
  parse_eq (by decide +kernel)

namespace Engine

/-- The ballot is gone, and nobody has taken the vote. -/
theorem finish_output_ballot : ∃ t during,
    finish (call 1) .booth (some (.bool true)) .voting =
      some (.error (.readOnly .settings), { turn := t, journal := [during] }) ∧
    t.shape = [{ id := "base" }] := by
  obtain ⟨during, hclose⟩ : ∃ during, call 1 .booth .ballot (.close .ended) .voting =
      some (.ok (), { turn := Session.voting.turn, journal := [during] }) := ⟨_, rfl⟩
  obtain ⟨hfails, -⟩ := finish_output (v := .booth) (d := .ballot) rfl rfl rfl hclose rfl
    (.bool true)
  obtain ⟨t, hfinish, -, hshape⟩ := hfails _ (.settings Path.parse_vote rfl)
  exact ⟨t, during, hfinish, hshape⟩

/-- The ballot's end hook changes nothing, the settings cannot be written, and the stack is not
what it was. -/
theorem finish_output_torn : ∃ during s',
    call 1 .booth .ballot (.close .ended) .voting =
      some (.ok (), { turn := Session.voting.turn, journal := [during] }) ∧
    Path.parse "settings.vote" = .ok ⟨"settings.vote", .settings, ["vote"]⟩ ∧
    finish (call 1) .booth (some (.bool true)) .voting =
      some (.error (.readOnly .settings), s') ∧
    s'.turn.stackAt? 0 = some [.owning "base"] ∧
    Session.voting.turn.stackAt? 0 = some [.owning "ballot", .owning "base"] := by
  obtain ⟨during, hclose⟩ : ∃ during, call 1 .booth .ballot (.close .ended) .voting =
      some (.ok (), { turn := Session.voting.turn, journal := [during] }) := ⟨_, rfl⟩
  have hset : (Session.voting.turn.pop 0).set 0 "settings.vote" (.bool true) =
      (.error (.readOnly .settings), Session.voting.turn.pop 0) := by
    simp only [Turn.set, Path.parse_vote]
    rfl
  have hwrite : writeOutput .booth .ballot (some (.bool true))
      { turn := Session.voting.turn.pop 0, journal := [during] } =
        some (.error (.readOnly .settings),
          { turn := Session.voting.turn.pop 0, journal := [during] }) := by
    rw [writeOutput_bound rfl Path.parse_vote Scope.noConfusion]
    exact congrArg (fun r => some (r.1, Session.mk r.2 [during])) hset
  have hfinish : finish (call 1) .booth (some (.bool true)) .voting =
      (writeOutput .booth .ballot (some (.bool true)) >>= fun _ =>
        handOver (call 1) .booth (some (.bool true)))
          { turn := Session.voting.turn.pop 0, journal := [during] } :=
    finish_eq rfl rfl hclose rfl _
  refine ⟨during, { turn := Session.voting.turn.pop 0, journal := [during] }, hclose,
    Path.parse_vote, ?_, rfl, rfl⟩
  rw [hfinish, Eval.bind_apply, hwrite]

end Engine
end Colloquy
