import Colloquy.Proofs.Engine.Rollback
import Colloquy.Proofs.Memory.Held
import Colloquy.Proofs.Nesting.Layers
import Colloquy.Proofs.Persistence

/-!
# One turn after another on a stack

A dialog that is begun finds in its frame what was written there. Between turns a conversation
is kept and read again. In each turn a stack is continued once, at its level, with whatever else
going on around it that leaves it alone.
-/
namespace Colloquy

/-! ## What was called -/

mutual
/-- The calls of hooks in an entry, each before those that were made while it ran. -/
def Entry.calls : Entry → List HookCall
  | .called call _ during => call :: Entry.callsOf during
  | .noted _ => []

def Entry.callsOf : List Entry → List HookCall
  | [] => []
  | e :: rest => e.calls ++ Entry.callsOf rest
end

namespace Session

/-- The calls of hooks so far, in the order in which they were made. -/
def calls (s : Session) : List HookCall := Entry.callsOf s.journal

end Session

theorem Entry.callsOf_append (before after : List Entry) :
    callsOf (before ++ after) = callsOf before ++ callsOf after := by
  induction before with
  | nil => rfl
  | cons e rest ih => simp only [List.cons_append, callsOf, ih, List.append_assoc]

theorem Entry.callsOf_noted (contents : List Json) : callsOf (contents.map .noted) = [] := by
  induction contents with
  | nil => rfl
  | cons content rest ih => exact ih

/-- A call comes before those that were made while it ran. -/
theorem Session.calls_called (t : Turn) (journal during : List Entry) (c : HookCall)
    (answer : Except Fault c.hook.Reply) :
    Session.calls { turn := t, journal := journal ++ [.called c answer during] } =
      Entry.callsOf journal ++ c :: Entry.callsOf during := by
  rw [Session.calls, Entry.callsOf_append]
  simp only [Entry.callsOf, Entry.calls, List.append_nil]

/-- What goes on in a turn apart from the stack at a level. -/
structure Turn.Meanwhile (level : Nat) (t t' : Turn) : Prop where
  activity : t'.activity = t.activity
  stack : t'.stackAt? level = t.stackAt? level

namespace Turn

theorem Meanwhile.refl (level : Nat) (t : Turn) : Meanwhile level t t := ⟨rfl, rfl⟩

/-- The turn for an activity after another turn was kept, at a moment when its stack at the
level is as it was kept. -/
def Next (level : Nat) (t : Turn) (a : Activity) (found : Turn) : Prop :=
  ∃ settings started, start a t.snapshot settings = .ok started ∧
    Meanwhile level started found

theorem Next.activity {level : Nat} {t found : Turn} {a : Activity} (h : Next level t a found) :
    found.activity = a := by
  obtain ⟨settings, started, hstart, hfound⟩ := h
  rw [start_of_stack? (snapshot_stack? t)] at hstart
  obtain rfl := Except.ok.inj hstart
  exact hfound.activity

/-- The stack is read as it was kept. -/
theorem Next.stack {level : Nat} {t found : Turn} {a : Activity} (h : Next level t a found) :
    found.stackAt? level = t.stackAt? level := by
  obtain ⟨settings, started, hstart, hfound⟩ := h
  rw [start_of_stack? (snapshot_stack? t)] at hstart
  obtain rfl := Except.ok.inj hstart
  exact hfound.stack

/-- The turn for an activity after another turn was kept, as it is started without settings. -/
def reopened (t : Turn) (a : Activity) : Turn :=
  .opening a .empty t.snapshot.user (t.snapshot.conversation.erase stackKey) t.stack

theorem next_reopened (level : Nat) (t : Turn) (a : Activity) : Next level t a (t.reopened a) :=
  ⟨_, _, start_of_stack? (snapshot_stack? t) a .empty, .refl _ _⟩

end Turn

namespace Engine
variable {v : View} {d : Dialog} {s : Session} {id : String} {inputs : List (String × Json)}
  {options : Option Json} {u : Stack} {m : Object}

/-! ## Beginning -/

/-- A frame with a memory of its own is pushed with what is written into it. -/
theorem push_seeded {asked t : Turn} (h : Prepared v asked id d inputs) (hkind : d.kind ≠ .command)
    (hu : t.stackAt? v.level = some u) {outcome : Except Fault Unit}
    (hwrites : Object.writeAll (seeds d inputs options) .empty = (outcome, m)) :
    (t.push v.level (newFrame d id t v.level)).seed v.level (seeds d inputs options) =
      (outcome, t.put v.level (⟨id, some m, none, []⟩ :: u)) := by
  have hpush : t.push v.level (.owning id) = t.put v.level (.owning id :: u) :=
    Turn.modifyStack_eq_put hu _
  have hpushed := Turn.stackAt?_put hu (.owning id :: u)
  rw [newFrame_owning hkind, hpush]
  by_cases hnone : seeds d inputs options = []
  · rw [hnone] at hwrites ⊢
    obtain ⟨rfl, rfl⟩ := Prod.mk.inj hwrites
    rfl
  · rw [Turn.seed_holder (seeds_scoped h options) (Turn.holder?_owned hpushed rfl)
      (Turn.frameAt?_top hpushed) hnone]
    have hmemory : (Frame.owning id).memory.getD .empty = .empty := rfl
    rw [hmemory, hwrites, Turn.withMemory_active hpushed, Turn.put_put]
    rfl

/-- A dialog that is no command is told to begin in a frame with what was written into it. -/
theorem begin_seeded {caller : Caller} (h : Prepared v s.turn id d inputs)
    (hkind : d.kind ≠ .command) (hu : s.turn.stackAt? v.level = some u)
    (hwrites : Object.writeAll (seeds d inputs options) .empty = (.ok (), m)) :
    begin caller v id options s =
      (caller v d (.begin options)
        { s with turn := s.turn.put v.level (⟨id, some m, none, []⟩ :: u) }).map fun r =>
          (r.1, if r.1.isOk then r.2
            else { r.2 with turn := r.2.turn.truncate v.level u.length }) := by
  rw [begin_of_prepared h, pushAndBegin_told (Turn.level?_shape_of_stackAt? hu)
    (push_seeded h hkind hu hwrites), Stack.length_bare]

theorem parse_options :
    Path.parse "dialog.options" = .ok ⟨"dialog.options", .dialog, ["options"]⟩ :=
  Path.parse_eq (by decide +kernel)

/-- The options are found where they were written, if no input goes there. -/
theorem options_seeded (hkind : d.kind ≠ .command)
    (hwrites : Object.writeAll (seeds d inputs options) .empty = (.ok (), m))
    (hinputs : ∀ entry ∈ inputs, ∀ p, Path.parse entry.1 = .ok p →
      p.keys.head? ≠ some "options") : m.find? "options" = options := by
  obtain ⟨m₁, hfirst, hlast⟩ := Object.writeAll_append hwrites
  have hpath : optionsPath d = "dialog.options" := if_neg hkind
  cases options with
  | none =>
    obtain rfl := (Prod.mk.inj hlast).2
    exact Object.find?_writeAll hfirst hinputs
  | some value =>
    simp only [Json.optional, Object.writeAll, hpath, parse_options, Except.bind] at hlast
    obtain rfl := (Prod.mk.inj hlast).2
    simp

/-- A dialog that has begun was told to, in a frame with all that was written into it. -/
theorem begin_told {caller : Caller} {s' : Session} {r : TurnResult}
    (h : Prepared v s.turn id d inputs) (hkind : d.kind ≠ .command)
    (hu : s.turn.stackAt? v.level = some u)
    (hrun : begin caller v id options s = some (.ok r, s')) :
    ∃ m, Object.writeAll (seeds d inputs options) .empty = (.ok (), m) ∧
      caller v d (.begin options)
        { s with turn := s.turn.put v.level (⟨id, some m, none, []⟩ :: u) } =
          some (.ok r, s') := by
  cases hwrites : Object.writeAll (seeds d inputs options) .empty with
  | mk outcome m =>
    cases outcome with
    | error e =>
      rw [begin_of_prepared h, pushAndBegin_unseeded (Turn.level?_shape_of_stackAt? hu)
        (push_seeded h hkind hu hwrites)] at hrun
      cases (Prod.mk.inj (Option.some.inj hrun)).1
    | ok =>
      rw [begin_seeded h hkind hu hwrites] at hrun
      obtain ⟨⟨result, after⟩, hcall, heq⟩ := Option.map_eq_some_iff.mp hrun
      obtain ⟨rfl, rfl⟩ := Prod.mk.inj heq
      exact ⟨m, rfl, hcall⟩

/-! ## Going on -/

/-- Without fuel the active dialog cannot be told to go on. -/
theorem advance_exhausted {f : Frame} {rest : Stack}
    (hu : s.turn.stackAt? v.level = some (f :: rest)) (hd : v.find? f.id = some d) :
    advance (call 0) v s = none := by
  rw [advance_active (Turn.active?_of_stackAt? hu) hd]
  rfl

/-- A turn in which a stack was continued: its activity, and the calls of hooks that it took. -/
structure Round where
  activity : Activity
  calls : List HookCall

abbrev activities (rounds : List Round) : List Activity := rounds.map Round.activity

/-- The stack of a view is continued in one turn after another. Each turn is kept and read again
for the next one. -/
inductive Rounds (v : View) (t : Turn) : List Round → Turn → Prop
  | none {t' : Turn} (h : Turn.Meanwhile v.level t t') : Rounds v t [] t'
  | more {rounds : List Round} {a : Activity} {calls : List HookCall} {t₁ t' : Turn}
      {found left : Session} {fuel : Nat} {r : TurnResult} (before : Rounds v t rounds t₁)
      (hfound : Turn.Next v.level t₁ a found.turn)
      (hrun : advance (call fuel) v found = some (.ok r, left))
      (hcalls : left.calls = found.calls ++ calls)
      (hleft : Turn.Meanwhile v.level left.turn t') : Rounds v t (rounds ++ [⟨a, calls⟩]) t'

/-- The stack of a view is continued with each of the activities, in a turn in which nothing else
goes on, as long as that succeeds. -/
def play (n : Nat) (v : View) (t : Turn) : List Activity → Option (List Round × Turn)
  | [] => some ([], t)
  | a :: rest =>
    match advance (call n) v { turn := t.reopened a } with
    | some (.ok _, left) =>
      (play n v left.turn rest).map fun played => (⟨a, left.calls⟩ :: played.1, played.2)
    | _ => none

/-- The turns that were played come after those that were there. -/
theorem Rounds.append_play {n : Nat} {as : List Activity} {rounds played : List Round}
    {t t₁ t' : Turn} (before : Rounds v t rounds t₁) (h : play n v t₁ as = some (played, t')) :
    Rounds v t (rounds ++ played) t' ∧ activities played = as := by
  induction as generalizing rounds played t₁ with
  | nil =>
    obtain ⟨rfl, rfl⟩ := Prod.mk.inj (Option.some.inj h)
    exact ⟨(List.append_nil rounds).symm ▸ before, rfl⟩
  | cons a rest ih =>
    simp only [play] at h
    split at h
    · next r left hrun =>
      obtain ⟨⟨more, t₂⟩, hmore, heq⟩ := Option.map_eq_some_iff.mp h
      obtain ⟨rfl, rfl⟩ := Prod.mk.inj heq
      have hround : Rounds v t (rounds ++ [⟨a, left.calls⟩]) left.turn :=
        .more before (t₁.next_reopened v.level a) hrun rfl (.refl _ _)
      obtain ⟨hrounds, hrest⟩ := ih hround hmore
      rw [List.append_assoc] at hrounds
      exact ⟨hrounds, congrArg (a :: ·) hrest⟩
    · cases h

theorem rounds_of_play {n : Nat} {as : List Activity} {rounds : List Round} {t t' : Turn}
    (h : play n v t as = some (rounds, t')) : Rounds v t rounds t' ∧ activities rounds = as :=
  Rounds.append_play (.none (.refl _ _)) h

end Engine
end Colloquy
