import Colloquy.Proofs.Engine.Fuel

/-!
# What comes before a push

A begin and a replacement start alike: the id is looked up and the input bindings are
read. When one of them is found wanting, nothing has changed.
-/
namespace Colloquy

/-- The id of a replacement is written down in any turn. -/
theorem Turn.set_repeatDialogId (t : Turn) (level : Nat) (value : Json) :
    t.set level "turn.repeatDialogId" value =
      (.ok (), { t with scratch := t.scratch.insert "repeatDialogId" value }) := by
  have hparse : Path.parse "turn.repeatDialogId" =
      .ok { text := "turn.repeatDialogId", scope := .turn, keys := ["repeatDialogId"] } :=
    Path.parse_eq (by decide +kernel)
  simp only [set, hparse]
  rfl

/-- Writes values one after another, as far as they can be written. -/
def Turn.seed (t : Turn) (level : Nat) : List (String × Json) → Except Fault Unit × Turn
  | [] => (.ok (), t)
  | (path, value) :: rest =>
    match t.set level path value with
    | (.ok _, t) => seed t level rest
    | (.error e, t) => (.error e, t)

namespace Engine
variable {caller : Caller} {v : View} {s : Session} {id : String} {options : Option Json}
  {d : Dialog} {inputs : List (String × Json)} {e : Fault}

/-- The id means a dialog, and its input bindings copy these values. -/
structure Prepared (v : View) (t : Turn) (id : String) (d : Dialog)
    (inputs : List (String × Json)) : Prop where
  found : lookUp v id = .ok d
  bound : readInputs t v.level d.inputs = .ok inputs

/-- The id means nothing, or an input binding of its dialog cannot be read. -/
def Unprepared (v : View) (t : Turn) (id : String) (e : Fault) : Prop :=
  lookUp v id = .error e ∨ ∃ d, lookUp v id = .ok d ∧ readInputs t v.level d.inputs = .error e

/-- An id is either ready to be begun or refused beforehand. -/
theorem prepared_or (v : View) (t : Turn) (id : String) :
    (∃ d inputs, Prepared v t id d inputs) ∨ ∃ e, Unprepared v t id e := by
  cases hd : lookUp v id with
  | error e => exact .inr ⟨e, .inl hd⟩
  | ok d =>
    cases hinputs : readInputs t v.level d.inputs with
    | error e => exact .inr ⟨e, .inr ⟨d, hd, hinputs⟩⟩
    | ok inputs => exact .inl ⟨d, inputs, hd, hinputs⟩

theorem begin_of_prepared (h : Prepared v s.turn id d inputs) :
    begin caller v id options s = pushAndBegin caller v d id inputs options s := by
  simp only [begin, h.found, Eval.bind_apply, Eval.turn, Eval.ofExcept, h.bound]

theorem begin_of_unprepared (h : Unprepared v s.turn id e) :
    begin caller v id options s = some (.error e, s) := by
  rcases h with hd | ⟨d, hd, hinputs⟩
  · simp only [begin, hd]
    rfl
  · simp only [begin, hd, Eval.bind_apply, Eval.turn, Eval.ofExcept, hinputs]

theorem replace_of_unprepared (h : Unprepared v s.turn id e) :
    replace caller v id options s = some (.error e, s) := by
  rcases h with hd | ⟨d, hd, hinputs⟩
  · simp only [replace, hd]
    rfl
  · simp only [replace, hd, Eval.bind_apply, Eval.turn, Eval.ofExcept, hinputs]

/-! ## Seeding -/

theorem writeSeeds_eq (level : Nat) (seeds : List (String × Json)) :
    writeSeeds level seeds = Eval.onTurn (·.seed level seeds) := by
  induction seeds with
  | nil => rfl
  | cons entry rest ih =>
    obtain ⟨path, value⟩ := entry
    funext s
    rw [writeSeeds, ih]
    simp only [Eval.bind_apply, Eval.onTurn, Turn.seed]
    cases s.turn.set level path value with
    | mk outcome after => cases outcome <;> rfl

end Engine
end Colloquy
