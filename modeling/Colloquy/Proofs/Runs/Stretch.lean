import Colloquy.Proofs.Engine.Output

/-!
# How far a program comes by itself

Looks, edits and notes run no hook. So up to its first operation, or to the place where it goes
into another context, what a program does is a function of the turn that it finds: it leaves
another turn, some notes, and a program that goes on from there.
-/
namespace Colloquy

/-- A program once it has come as far as it can by itself: what is left of it, the turn then,
and what it has noted. -/
structure Stretch (α : Type) where
  left : Program α
  turn : Turn
  notes : List Json := []

namespace Stretch

/-- The same with notes that were made before. -/
def noting (notes : List Json) (x : Stretch α) : Stretch α :=
  { x with notes := notes ++ x.notes }

@[simp] theorem noting_nil (x : Stretch α) : x.noting [] = x := rfl

@[simp] theorem noting_noting (first second : List Json) (x : Stretch α) :
    (x.noting second).noting first = x.noting (first ++ second) := by
  simp only [noting, List.append_assoc]

end Stretch

namespace Program
variable {v : View} {t t' : Turn} {notes : List Json}

/-- How far a program comes by itself in a turn. -/
def stretch (v : View) : Program α → Turn → Stretch α
  | look next, t => stretch v (next (v.sight t)) t
  | edit e next, t => stretch v (next (e.apply v.level t).1) (e.apply v.level t).2
  | note content next, t => (stretch v next t).noting [content]
  | p, t => { left := p, turn := t }

theorem stretch_bind (p : Program α) (f : α → Program β) (t : Turn) :
    (p.bind f).stretch v t =
      (((p.stretch v t).left.bind f).stretch v (p.stretch v t).turn).noting
        (p.stretch v t).notes := by
  induction p generalizing t with
  | done outcome => cases outcome <;> rfl
  | look next ih => exact ih (v.sight t) f t
  | edit e next ih => exact ih (e.apply v.level t).1 f (e.apply v.level t).2
  | call c next ih => rfl
  | note content next ih =>
    have hrest := ih f t
    simp only [bind, stretch, hrest, Stretch.noting_noting]
    rfl
  | within place body next _ ih => rfl

/-- By itself a program starts, ends and moves no dialog. -/
theorem shape_stretch (p : Program α) (t : Turn) : (p.stretch v t).turn.shape = t.shape := by
  induction p generalizing t with
  | look next ih => exact ih (v.sight t) t
  | edit e next ih => exact (ih _ _).trans (Turn.shape_edit e v.level t)
  | note content next ih => exact ih t
  | done outcome | call c next | within place body next => rfl

/-- A part that comes to a value is left behind. -/
theorem stretch_then {p : Program α} {x : α} (hp : p.stretch v t = ⟨.done (.ok x), t', notes⟩)
    (f : α → Program β) : (p >>= f).stretch v t = ((f x).stretch v t').noting notes := by
  change (p.bind f).stretch v t = _
  rw [stretch_bind, hp]
  rfl

/-- A part that comes to a fault is where a program ends. -/
theorem stretch_then_error {p : Program α} {e : Fault}
    (hp : p.stretch v t = ⟨.done (.error e), t', notes⟩) (f : α → Program β) :
    (p >>= f).stretch v t = ⟨.done (.error e), t', notes⟩ := by
  change (p.bind f).stretch v t = _
  rw [stretch_bind, hp]
  simp only [bind, stretch, Stretch.noting, List.append_nil]

/-- What a program does by itself is not limited. -/
theorem stretch_limitNext (again : Fault) (p : Program α) (t : Turn) :
    (p.limitNext again false).stretch v t =
      { p.stretch v t with left := (p.stretch v t).left.limitNext again false } := by
  induction p generalizing t with
  | done outcome => rfl
  | look next ih => exact ih (v.sight t) t
  | edit e next ih => exact ih (e.apply v.level t).1 (e.apply v.level t).2
  | call c next ih => cases c <;> rfl
  | note content next ih =>
    have hrest := ih t
    simp only [limitNext, stretch, hrest]
    rfl
  | within place body next _ ih => rfl

/-! ## The usual parts -/

theorem stretch_pure (x : α) (t : Turn) :
    (pure x : Program α).stretch v t = ⟨.done (.ok x), t, []⟩ := rfl

theorem stretch_ofExcept (outcome : Except Fault α) (t : Turn) :
    (ofExcept outcome).stretch v t = ⟨.done outcome, t, []⟩ := rfl

theorem stretch_activity (t : Turn) :
    activity.stretch v t = ⟨.done (.ok t.activity), t, []⟩ := rfl

theorem stretch_sight (t : Turn) : sight.stretch v t = ⟨.done (.ok (v.sight t)), t, []⟩ := rfl

theorem stretch_get (path : String) (t : Turn) :
    (get path).stretch v t = ⟨.done (t.get v.level path), t, []⟩ := rfl

theorem stretch_change (e : Edit α) (t : Turn) :
    (change e).stretch v t = ⟨.done (e.apply v.level t).1, (e.apply v.level t).2, []⟩ := rfl

theorem stretch_getAs {decode : Json → Option α} {path : String} {value : Json} {x : α}
    (hget : t.get v.level path = .ok (some value)) (hdecode : decode value = some x) :
    (getAs decode path).stretch v t = ⟨.done (.ok (some x)), t, []⟩ := by
  rw [getAs, stretch_then (by rw [stretch_get, hget]), Stretch.noting_nil,
    stretch_then (x := x) (by rw [hdecode]; rfl)]
  rfl

theorem stretch_set {path : String} {value : Json} (h : t.set v.level path value = (.ok (), t')) :
    (set path value).stretch v t = ⟨.done (.ok ()), t', []⟩ := by
  have hedit : (Edit.set path value).apply v.level t = (.ok (), t') := h
  rw [set, stretch_change, hedit]

theorem stretch_sendText (text : String) (t : Turn) :
    (sendText text).stretch v t = ⟨.done (.ok ()), t.send (t.activity.reply text), []⟩ := rfl

end Program

namespace Engine

/-- A program does what it can do by itself, and what is left of it follows. -/
theorem interpret_stretch (caller : Caller) (fuel : Nat) (self : Dialog) (v : View)
    (p : Program α) (s : Session) :
    interpret caller fuel self v p s =
      interpret caller fuel self v (p.stretch v s.turn).left
        { turn := (p.stretch v s.turn).turn
          journal := s.journal ++ (p.stretch v s.turn).notes.map .noted } := by
  induction p generalizing s with
  | done outcome => simp [Program.stretch]
  | look next ih =>
    rw [interpret]
    exact ih (v.sight s.turn) s
  | edit e next ih =>
    rw [interpret]
    exact ih (e.apply v.level s.turn).1 { s with turn := (e.apply v.level s.turn).2 }
  | call c next ih => simp [Program.stretch]
  | note content next ih =>
    have hrest := ih { s with journal := s.journal ++ [.noted content] }
    rw [List.append_assoc] at hrest
    rw [interpret]
    exact hrest
  | within place body next _ ih => simp [Program.stretch]

/-- What is entered for the call of a hook, around what was entered while it ran. -/
def recorded (v : View) (d : Dialog) (t : Turn) (hook : Hook) (journal : List Entry)
    (r : Except Fault hook.Reply × Session) : Except Fault hook.Reply × Session :=
  (r.1, { r.2 with journal := journal ++ [.called (.of v d t hook) r.1 r.2.journal] })

theorem call_stretch {v : View} {d : Dialog} {hook : Hook} {s : Session} {fuel : Nat}
    {x : Stretch hook.Reply} (hx : (d.program hook).stretch v s.turn = x) :
    call (fuel + 1) v d hook s =
      (interpret (call fuel) fuel d v x.left { turn := x.turn, journal := x.notes.map .noted }).map
        (recorded v d s.turn hook s.journal) := by
  have hinside := interpret_stretch (call fuel) fuel d v (d.program hook)
    { s with journal := [] }
  rw [hx, List.nil_append] at hinside
  rw [← hinside]
  rfl

/-- A hook that runs no other answers with what its program comes to. -/
theorem call_of_done {v : View} {d : Dialog} {hook : Hook} {s : Session}
    {outcome : Except Fault hook.Reply} {t' : Turn} {notes : List Json}
    (hx : (d.program hook).stretch v s.turn = ⟨.done outcome, t', notes⟩) (fuel : Nat) :
    call (fuel + 1) v d hook s = some (outcome, { turn := t', journal :=
      s.journal ++ [.called (.of v d s.turn hook) outcome (notes.map .noted)] }) := by
  rw [call_stretch hx]
  rfl

/-- A dialog that takes no notice of its end leaves the stack, and then its result is written
and handed over. -/
theorem finish_unnoticed {v : View} {d : Dialog} {s : Session} {f : Frame} {rest : Stack}
    (hu : s.turn.stackAt? v.level = some (f :: rest)) (hd : v.find? f.id = some d)
    (hclose : d.onClose .ended = pure ()) (fuel : Nat) (result : Option Json) :
    finish (call (fuel + 1)) v result s =
      (writeOutput v d result >>= fun _ => handOver (call (fuel + 1)) v result)
        { turn := s.turn.put v.level rest
          journal := s.journal ++ [.called (.of v d s.turn (.close .ended)) (.ok ()) []] } := by
  have hstretch : (d.program (.close .ended)).stretch v s.turn = ⟨.done (.ok ()), s.turn, []⟩ := by
    rw [Dialog.program, hclose]
    rfl
  have hpop : s.turn.pop v.level = s.turn.put v.level rest := Turn.modifyStack_eq_put hu _
  rw [finish_eq hu hd (call_of_done hstretch fuel) hu, hpop]
  rfl

end Engine
end Colloquy
