import Colloquy.Proofs.Engine.Output
import Colloquy.Proofs.Nesting.Layers
import Colloquy.Proofs.Runs.Rounds
import Colloquy.Proofs.Runs.Stretch

/-!
# Prompts from begin to end

A prompt keeps its options and the number of messages it has had in its frame's memory. Each
turn reads both there, and the next turn finds them as they were kept.
-/
namespace Colloquy

namespace Prompt
open Engine
variable (p : Prompt) {v : View} {t : Turn} {level : Nat} {id : String} {m : Object}
  {u : Stack} {given : Json} {o : PromptOptions} {n : Nat}

/-! ## What a message comes to -/

/-- The value found in a message, if it is accepted as the answer. -/
def answer? (o : PromptOptions) (attempt : Nat) (a : Activity) : Option Json :=
  match p.recognize a with
  | .ok (some value) => if (p.judge ⟨value, attempt, o⟩).accepted then some value else none
  | _ => none

/-- What the validator notes of a message: it is asked only about a value that was found. -/
def remarks (o : PromptOptions) (attempt : Nat) (a : Activity) : List Json :=
  match p.recognize a with
  | .ok (some value) => (p.judge ⟨value, attempt, o⟩).notes
  | _ => []

/-- The first answer among activities, after a number of messages. -/
def firstAnswer? (o : PromptOptions) : Nat → List Activity → Option Json
  | _, [] => none
  | n, a :: rest =>
    if a.isMessage then (p.answer? o (n + 1) a).or (firstAnswer? o (n + 1) rest)
    else firstAnswer? o n rest

/-- The number of messages among activities. -/
abbrev messages (as : List Activity) : Nat := as.countP Activity.isMessage

theorem firstAnswer?_concat (o : PromptOptions) (n : Nat) (as : List Activity) (a : Activity) :
    p.firstAnswer? o n (as ++ [a]) = none ↔ p.firstAnswer? o n as = none ∧
      (a.isMessage → p.answer? o (n + messages as + 1) a = none) := by
  induction as generalizing n with
  | nil => by_cases h : a.isMessage <;> simp [firstAnswer?, h]
  | cons b rest ih =>
    by_cases h : b.isMessage
    · simp only [List.cons_append, firstAnswer?, h, if_true, Option.or_eq_none_iff, ih, and_assoc,
        messages, List.countP_cons_of_pos]
      rw [Nat.add_right_comm n 1, Nat.add_assoc n]
    · simp only [List.cons_append, firstAnswer?, if_neg h, ih, messages,
        List.countP_cons_of_neg h]

/-! ## What it does by itself -/

/-- The memory of a prompt: its options as they were given, and the number of messages. -/
structure Remembers (given : Json) (n : Nat) (m : Object) : Prop where
  options : m.find? "options" = some given
  count : m.find? "attemptCount" = some (.nat n)

/-- The frame of a prompt. -/
abbrev frame (id : String) (m : Object) : Frame := ⟨id, some m, none, []⟩

/-- The turn with another count in the prompt's frame, which is active over others. -/
abbrev counted (t : Turn) (level : Nat) (id : String) (m : Object) (u : Stack) (n : Nat) : Turn :=
  t.put level (frame id (m.insert "attemptCount" (.nat n)) :: u)

theorem stretch_storedOptions (hu : t.stackAt? v.level = some (frame id m :: u))
    (hoptions : m.find? "options" = some given) (ho : PromptOptions.ofJson? given = some o) :
    storedOptions.stretch v t = ⟨.done (.ok o), t, []⟩ := by
  have hget : t.get v.level optionsPath = .ok (some given) := by
    rw [Turn.get_owned hu rfl parse_optionsPath rfl, Path.read_property rfl, hoptions]
  rw [storedOptions, Program.stretch_then (Program.stretch_getAs hget ho)]
  rfl

theorem stretch_judged (trial : Trial) (t : Turn) :
    (p.judged trial).stretch v t =
      ⟨.done (.ok (p.judge trial).accepted), t, (p.judge trial).notes⟩ := by
  have hnotes (notes : List Json) :
      (notes.forM Program.record).stretch v t = ⟨.done (.ok ()), t, notes⟩ := by
    induction notes with
    | nil => rfl
    | cons note rest ih =>
      have hnote : (Program.record note).stretch v t = ⟨.done (.ok ()), t, [note]⟩ := rfl
      change (Program.record note >>= fun _ => rest.forM Program.record).stretch v t = _
      rw [Program.stretch_then hnote, ih]
      rfl
  rw [judged, Program.stretch_then (hnotes _)]
  simp [Stretch.noting, Program.stretch_pure]

/-- A message is counted, and what is found in it is judged. -/
theorem stretch_accept? (hu : t.stackAt? v.level = some (frame id m :: u))
    (hm : Remembers given n m) {found : Option Json} (hfound : p.recognize t.activity = .ok found) :
    (p.accept? o).stretch v t = ⟨.done (.ok (p.answer? o (n + 1) t.activity)),
      counted t v.level id m u (n + 1), p.remarks o (n + 1) t.activity⟩ := by
  have hget : t.get v.level attemptPath = .ok (some (.nat n)) := by
    rw [Turn.get_owned hu rfl parse_attemptPath rfl, Path.read_property rfl, hm.count]
  have hset : t.set v.level attemptPath (.nat (n + 1)) =
      (.ok (), counted t v.level id m u (n + 1)) :=
    Turn.set_property hu rfl parse_attemptPath rfl rfl _
  rw [accept?, Program.stretch_then (Program.stretch_getAs (x := n) hget rfl),
    Stretch.noting_nil, Option.getD_some, Program.stretch_then (Program.stretch_set hset),
    Stretch.noting_nil, Program.stretch_then (Program.stretch_activity _), Stretch.noting_nil]
  have hrecognized : p.recognize (counted t v.level id m u (n + 1)).activity = .ok found := hfound
  rw [hrecognized, Program.stretch_then (Program.stretch_ofExcept _ _), Stretch.noting_nil,
    answer?, remarks, hfound]
  cases found with
  | none => rfl
  | some value =>
    simp only []
    rw [Program.stretch_then (p.stretch_judged _ _)]
    cases (p.judge ⟨value, n + 1, o⟩).accepted with
    | true => simp [Program.stretch_pure, Stretch.noting]
    | false => simp [Program.stretch_pure, Stretch.noting]

/-- A prompt begins with its question, and no message so far. -/
theorem stretch_begin (hu : t.stackAt? v.level = some (frame id m :: u))
    (ho : PromptOptions.ofJson? given = some o) :
    (p.begin (some given)).stretch v t = ⟨.done (.ok .waiting),
      (counted t v.level id m u 0).send (t.activity.reply o.prompt), []⟩ := by
  have hset : t.set v.level attemptPath (.nat 0) = (.ok (), counted t v.level id m u 0) :=
    Turn.set_property hu rfl parse_attemptPath rfl rfl _
  have hread : Fault.orMalformed (PromptOptions.ofJson? given) = .ok o := by
    rw [ho]
    rfl
  rw [begin, hread, Program.stretch_then (Program.stretch_ofExcept _ _), Stretch.noting_nil,
    Program.stretch_then (Program.stretch_set hset), Stretch.noting_nil,
    Program.stretch_then (Program.stretch_sendText _ _)]
  rfl

/-- An activity that is no message is waited out. -/
theorem stretch_advance_other (hmessage : t.activity.isMessage = false) :
    p.advance.stretch v t = ⟨.done (.ok .waiting), t, []⟩ := by
  rw [advance, Program.stretch_then (Program.stretch_activity t), Stretch.noting_nil, hmessage]
  rfl

/-- A message without an answer is replied to, unless something was sent before. -/
theorem stretch_advance_unanswered (hu : t.stackAt? v.level = some (frame id m :: u))
    (hm : Remembers given n m) (ho : PromptOptions.ofJson? given = some o) {found : Option Json}
    (hfound : p.recognize t.activity = .ok found) (hmessage : t.activity.isMessage = true)
    (hanswer : p.answer? o (n + 1) t.activity = none) :
    p.advance.stretch v t = ⟨.done (.ok .waiting),
      (if t.hasReplied then counted t v.level id m u (n + 1)
        else (counted t v.level id m u (n + 1)).send (t.activity.reply o.retryText)),
      p.remarks o (n + 1) t.activity⟩ := by
  rw [advance, Program.stretch_then (Program.stretch_activity t), Stretch.noting_nil, hmessage]
  change (storedOptions >>= _).stretch v t = _
  rw [Program.stretch_then (stretch_storedOptions hu hm.options ho), Stretch.noting_nil,
    Program.stretch_then (p.stretch_accept? hu hm hfound), hanswer]
  have hreplied : (v.sight (counted t v.level id m u (n + 1))).turn.hasReplied = t.hasReplied := rfl
  change Stretch.noting _ ((Program.sight >>= _).stretch v _) = _
  rw [Program.stretch_then (Program.stretch_sight _), Stretch.noting_nil, hreplied]
  cases hsent : t.hasReplied with
  | true => simp [Program.stretch_pure, Stretch.noting]
  | false =>
    change Stretch.noting _
      ((Program.sendText o.retryText >>= fun _ => pure TurnResult.waiting).stretch v _) = _
    rw [Program.stretch_then (Program.stretch_sendText _ _)]
    simp only [Program.stretch_pure, Stretch.noting, List.append_nil]
    rfl

/-- A message with an answer ends the prompt. -/
theorem stretch_advance_answered (hu : t.stackAt? v.level = some (frame id m :: u))
    (hm : Remembers given n m) (ho : PromptOptions.ofJson? given = some o) {found : Option Json}
    (hfound : p.recognize t.activity = .ok found) (hmessage : t.activity.isMessage = true)
    {value : Json} (hanswer : p.answer? o (n + 1) t.activity = some value) :
    p.advance.stretch v t = ⟨Program.finish (some value), counted t v.level id m u (n + 1),
      p.remarks o (n + 1) t.activity⟩ := by
  rw [advance, Program.stretch_then (Program.stretch_activity t), Stretch.noting_nil, hmessage]
  change (storedOptions >>= _).stretch v t = _
  rw [Program.stretch_then (stretch_storedOptions hu hm.options ho), Stretch.noting_nil,
    Program.stretch_then (p.stretch_accept? hu hm hfound), hanswer]
  simp [Program.finish, Program.run, Program.stretch, Stretch.noting]

/-! ## A turn -/

/-- What comes of continuing a prompt whose frame is active, after a number of messages. An
activity that is no message changes nothing. A message without an answer is counted, and replied
to with the retry text unless something was sent before. A message with an answer takes the
frame off and hands the answer over. The validator is asked about what is found in a message,
with that message counted and with the options, and about nothing else. -/
structure Continues (v : View) (o : PromptOptions) (n : Nat) (id : String) (m : Object)
    (u : Stack) (s : Session) : Prop where
  other (hmessage : s.turn.activity.isMessage = false) (k : Nat) :
    Engine.advance (call (k + 1)) v s = some (.ok .waiting, { s with journal :=
      s.journal ++ [.called (.of v p.dialog s.turn .advance) (.ok .waiting) []] })
  unanswered (hmessage : s.turn.activity.isMessage = true)
    (hanswer : p.answer? o (n + 1) s.turn.activity = none) (k : Nat) :
    Engine.advance (call (k + 1)) v s = some (.ok .waiting,
      { turn :=
          if s.turn.hasReplied then counted s.turn v.level id m u (n + 1)
          else (counted s.turn v.level id m u (n + 1)).send (s.turn.activity.reply o.retryText)
        journal := s.journal ++ [.called (.of v p.dialog s.turn .advance) (.ok .waiting)
          ((p.remarks o (n + 1) s.turn.activity).map .noted)] })
  answered (hmessage : s.turn.activity.isMessage = true) {value : Json}
    (hanswer : p.answer? o (n + 1) s.turn.activity = some value) (k : Nat) :
    Engine.advance (call (k + 2)) v s =
      (handOver (call (k + 1)) v (some value)
        { turn := s.turn.put v.level u
          journal := (p.remarks o (n + 1) s.turn.activity).map .noted ++
            [.called (.of v p.dialog (counted s.turn v.level id m u (n + 1)) (.close .ended))
              (.ok ()) []] }).map
        (recorded v p.dialog s.turn .advance s.journal)

section
variable {s s₀ s' : Session} {fuel : Nat} {r : TurnResult} {options : Option Json}
  (hrecognizes : ∀ a, ∃ found, p.recognize a = .ok found)
include hrecognizes

theorem continues (hd : v.find? id = some p.dialog)
    (hu : s.turn.stackAt? v.level = some (frame id m :: u)) (hm : Remembers given n m)
    (ho : PromptOptions.ofJson? given = some o) : p.Continues v o n id m u s := by
  obtain ⟨found, hfound⟩ := hrecognizes s.turn.activity
  have hadvance (caller : Caller) : Engine.advance caller v s = caller v p.dialog .advance s :=
    advance_active (Turn.active?_of_stackAt? hu) hd
  refine ⟨fun hmessage k => ?_, fun hmessage hanswer k => ?_,
    fun hmessage value hanswer k => ?_⟩
  · have hother : (p.dialog.program .advance).stretch v s.turn = _ :=
      p.stretch_advance_other hmessage
    rw [hadvance]
    exact call_of_done hother k
  · have hunanswered : (p.dialog.program .advance).stretch v s.turn = _ :=
      p.stretch_advance_unanswered hu hm ho hfound hmessage hanswer
    rw [hadvance]
    exact call_of_done hunanswered k
  · have hanswered : (p.dialog.program .advance).stretch v s.turn = _ :=
      p.stretch_advance_answered hu hm ho hfound hmessage hanswer
    have hcounted : (counted s.turn v.level id m u (n + 1)).stackAt? v.level = some (_ :: u) :=
      Turn.stackAt?_put hu _
    have hfinish := finish_unnoticed
      (s := { turn := counted s.turn v.level id m u (n + 1)
              journal := (p.remarks o (n + 1) s.turn.activity).map .noted })
      hcounted hd rfl k (some value)
    rw [writeOutput_unbound v rfl, Turn.put_put] at hfinish
    rw [hadvance, call_stretch hanswered, Program.finish, interpret_run, perform]
    exact congrArg _ hfinish

omit hrecognizes in
/-- A prompt that has been told to begin, and has begun, was given options. -/
theorem told_begin {outcome : Session} (hu : s.turn.stackAt? v.level = some (frame id m :: u))
    (hcall : call fuel v p.dialog (.begin options) s = some (.ok r, outcome)) :
    ∃ given o, options = some given ∧ PromptOptions.ofJson? given = some o ∧
      outcome.turn.stackAt? v.level =
        some (frame id (m.insert "attemptCount" (.nat 0)) :: u) := by
  cases fuel with
  | zero => cases hcall
  | succ k =>
    cases options with
    | none =>
      have hfails : (p.dialog.program (.begin none)).stretch v s.turn =
        ⟨.done (.error _), s.turn, []⟩ := rfl
      rw [call_of_done hfails] at hcall
      cases (Prod.mk.inj (Option.some.inj hcall)).1
    | some given =>
      cases ho : PromptOptions.ofJson? given with
      | none =>
        have hfails : (p.dialog.program (.begin (some given))).stretch v s.turn =
            ⟨.done (.error .malformed), s.turn, []⟩ := by
          change (p.begin (some given)).stretch v s.turn = _
          rw [begin, ho]
          exact Program.stretch_then_error (Program.stretch_ofExcept _ _) _
        rw [call_of_done hfails] at hcall
        cases (Prod.mk.inj (Option.some.inj hcall)).1
      | some o =>
        have hbegins : (p.dialog.program (.begin (some given))).stretch v s.turn = _ :=
          p.stretch_begin hu ho
        rw [call_of_done hbegins] at hcall
        obtain ⟨-, rfl⟩ := Prod.mk.inj (Option.some.inj hcall)
        exact ⟨given, o, rfl, ho, Turn.stackAt?_put hu _⟩

omit hrecognizes in
/-- A prompt that has begun remembers the options that it was given, and no message. -/
theorem begun (hp : lookUp v id = .ok p.dialog)
    (hbegin : Engine.begin (call fuel) v id options s = some (.ok r, s₀)) :
    ∃ given o u m, options = some given ∧ PromptOptions.ofJson? given = some o ∧
      s.turn.stackAt? v.level = some u ∧ s₀.turn.stackAt? v.level = some (frame id m :: u) ∧
      Remembers given 0 m := by
  have hprepared : Prepared v s.turn id p.dialog [] := ⟨hp, rfl⟩
  cases hu : s.turn.stackAt? v.level with
  | none =>
    rw [begin_detached hu hprepared] at hbegin
    cases (Prod.mk.inj (Option.some.inj hbegin)).1
  | some u =>
    obtain ⟨m, hwrites, hcall⟩ := begin_told hprepared Kind.noConfusion hu hbegin
    have hoptions := options_seeded Kind.noConfusion hwrites (List.forall_mem_nil _)
    obtain ⟨given, o, rfl, ho, hafter⟩ :=
      p.told_begin (Turn.stackAt?_put hu (frame id m :: u)) hcall
    exact ⟨given, o, u, _, rfl, ho, rfl, hafter, by simpa using hoptions, by simp⟩

omit hrecognizes in
/-- After a turn without an answer the frame is still there, and a message has been counted. -/
theorem Continues.waits (h : p.Continues v o n id m u s) (hd : v.find? id = some p.dialog)
    (hu : s.turn.stackAt? v.level = some (frame id m :: u)) (hm : Remembers given n m)
    (hnone : s.turn.activity.isMessage → p.answer? o (n + 1) s.turn.activity = none)
    (hrun : Engine.advance (call fuel) v s = some (.ok r, s')) :
    ∃ m', s'.turn.stackAt? v.level = some (frame id m' :: u) ∧
      Remembers given (n + messages [s.turn.activity]) m' := by
  cases fuel with
  | zero =>
    rw [advance_exhausted hu hd] at hrun
    cases hrun
  | succ k =>
    by_cases hmessage : s.turn.activity.isMessage
    · have hcount : messages [s.turn.activity] = 1 := by simp [messages, hmessage]
      rw [h.unanswered hmessage (hnone hmessage)] at hrun
      obtain ⟨-, rfl⟩ := Prod.mk.inj (Option.some.inj hrun)
      refine ⟨m.insert "attemptCount" (.nat (n + 1)), ?_, ?_⟩
      · split <;> exact Turn.stackAt?_put hu _
      · rw [hcount]
        exact ⟨by simpa using hm.options, by simp⟩
    · have hcount : messages [s.turn.activity] = 0 := by simp [messages, hmessage]
      rw [h.other (Bool.not_eq_true _ ▸ hmessage)] at hrun
      obtain ⟨-, rfl⟩ := Prod.mk.inj (Option.some.inj hrun)
      rw [hcount]
      exact ⟨m, hu, hm⟩

/-- A prompt begins with options, on a stack at any level, and is continued in any number of
turns, each kept and read again for the next. It has remembered the options that it was begun
with, and as long as there was no answer in any of the messages, its frame is active over those
that were there, with the number of messages as its count; and what comes of the next turn,
whatever its activity, depends on that number, on the options and on what was sent before. -/
theorem rounds_until_answer (hp : lookUp v id = .ok p.dialog)
    (hbegin : Engine.begin (call fuel) v id options s = some (.ok r, s₀)) {rounds : List Round}
    (hrounds : Rounds v s₀.turn rounds t) :
    ∃ given o u, options = some given ∧ PromptOptions.ofJson? given = some o ∧
      s.turn.stackAt? v.level = some u ∧
      (p.firstAnswer? o 0 (activities rounds) = none →
        ∃ m, t.stackAt? v.level = some (frame id m :: u) ∧
          Remembers given (messages (activities rounds)) m ∧
          ∀ a next, t.Next v.level a next.turn →
            p.Continues v o (messages (activities rounds)) id m u next) := by
  have hd := find?_of_lookUp hp
  obtain ⟨given, o, u, m₀, hgiven, ho, hu, hu₀, hm₀⟩ := p.begun hp hbegin
  have hnext {t : Turn} {m : Object} {n : Nat} (ht : t.stackAt? v.level = some (frame id m :: u))
      (hm : Remembers given n m) (a : Activity) (next : Session) (h : t.Next v.level a next.turn) :
      p.Continues v o n id m u next :=
    p.continues hrecognizes hd (h.stack.trans ht) hm ho
  refine ⟨given, o, u, hgiven, ho, hu, ?_⟩
  -- by induction on the turns: the last of them finds what the ones before have left
  induction hrounds with
  | none hsame =>
    intro _
    have ht := hsame.stack.trans hu₀
    exact ⟨m₀, ht, hm₀, hnext ht hm₀⟩
  | @more rounds a calls t₁ t' found left fuel r before hfound hrun hcalls hleft ih =>
    intro hnone
    have hall : activities (rounds ++ [⟨a, calls⟩]) = activities rounds ++ [a] := List.map_append
    rw [hall, p.firstAnswer?_concat, Nat.zero_add, ← hfound.activity] at hnone
    obtain ⟨hbefore, hlast⟩ := hnone
    obtain ⟨m, ht₁, hm, hcontinues⟩ := ih hbefore
    have hfu := hfound.stack.trans ht₁
    obtain ⟨m', hleft', hm'⟩ := (hcontinues a found hfound).waits p hd hfu hm hlast hrun
    have ht' := hleft.stack.trans hleft'
    rw [hall, messages, List.countP_append, ← hfound.activity]
    exact ⟨m', ht', hm', hnext ht' hm'⟩

end

/-- A prompt that takes any name but one, and notes of each name how many messages there were. -/
def whoever : Prompt where
  id := "name"
  recognize := Recognizer.text
  judge trial :=
    { accepted := trial.recognized != .string "nobody", notes := [.nat trial.attempt] }

/-- The prompt is begun. An event, a blank message and a name that is not accepted follow, each in
a turn of its own. The next message is the third, and holds the answer. -/
theorem rounds_until_answer_whoever :
    let v : View := { own := Table.empty.insert "name" whoever.dialog }
    let given := (PromptOptions.mk "Who are you?" none).toJson
    ∃ r s₀ rounds t m next, Engine.begin (call 1) v "name" (some given)
        { turn := { activity := .message "c" "hello" } } = some (.ok r, s₀) ∧
      activities rounds = [.event "c" "ping" none, .message "c" " ", .message "c" "nobody"] ∧
      Rounds v s₀.turn rounds t ∧ t.stackAt? 0 = some [frame "name" m] ∧
      Remembers given 2 m ∧
      Engine.advance (call 2) v { turn := t.reopened (.message "c" "Ann") } =
        some (.ok (.completed (some (.string "Ann"))), next) := by
  intro v given
  have hok : ((Engine.begin (call 1) v "name" (some given)
      { turn := { activity := .message "c" "hello" } }).bind fun begun =>
        (play 1 v begun.2.turn [.event "c" "ping" none, .message "c" " ",
          .message "c" "nobody"]).map fun _ => begun.1.isOk) = some true := by
    decide +kernel
  obtain ⟨⟨outcome, s₀⟩, hbegin, hok⟩ := Option.bind_eq_some_iff.mp hok
  obtain ⟨⟨rounds, t⟩, hplay, hsucceeds⟩ := Option.map_eq_some_iff.mp hok
  cases outcome with
  | error e => cases hsucceeds
  | ok r =>
    have hrecognizes (a : Activity) : ∃ found, whoever.recognize a = .ok found := ⟨_, rfl⟩
    obtain ⟨hrounds, hactivities⟩ := rounds_of_play hplay
    obtain ⟨_, o, u, hgiven, ho, hu, hwaits⟩ :=
      whoever.rounds_until_answer hrecognizes rfl hbegin hrounds
    obtain rfl := Option.some.inj hgiven
    obtain rfl : PromptOptions.mk "Who are you?" none = o := Option.some.inj ho
    obtain rfl : [] = u := Option.some.inj hu
    rw [hactivities] at hwaits
    obtain ⟨m, ht, hm, hcontinues⟩ := hwaits (by decide +kernel)
    have hnext := t.next_reopened v.level (.message "c" "Ann")
    have hanswer : whoever.answer? ⟨"Who are you?", none⟩ 3 (.message "c" "Ann") =
        some (.string "Ann") := rfl
    have hanswered := (hcontinues _ { turn := _ } hnext).answered rfl hanswer 0
    exact ⟨r, s₀, rounds, t, m, _, hbegin, hactivities, hrounds, ht, hm, hanswered⟩

end Prompt
end Colloquy
