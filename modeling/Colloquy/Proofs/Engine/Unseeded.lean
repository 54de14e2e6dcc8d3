import Colloquy.Proofs.Engine.Rollback
import Colloquy.Proofs.Memory.Held

/-!
# Begins that cannot be seeded

When a value cannot be written into a new frame, the frame is taken off before its dialog is
told anything. A frame with a memory of its own takes with it what was written before. A command
has none: what was written before went into the frame whose memory it shares, and stays there.
-/
namespace Colloquy

namespace Stack

/-- What the frames around a stack remember is the same over another stack. -/
theorem memory_put {n level : Nat} (h : n < level) (position : Nat) (w s : Stack) :
    ((level? n (put level w s)).bind (at? · position)).map Frame.memory =
      ((level? n s).bind (at? · position)).map Frame.memory := by
  obtain ⟨k, rfl⟩ : ∃ k, level = k + 1 := Nat.exists_eq_add_one_of_ne_zero (Nat.ne_zero_of_lt h)
  cases s with
  | nil => rfl
  | cons f rest =>
    induction n generalizing f rest k with
    | zero =>
      simp only [put, modifyLevel, level?_zero, Option.bind_some, at?_cons]
      split <;> rfl
    | succ n ih =>
      obtain ⟨j, rfl⟩ : ∃ j, k = j + 1 :=
        Nat.exists_eq_add_one_of_ne_zero (Nat.ne_zero_of_lt (Nat.lt_of_succ_lt_succ h))
      cases hchildren : f.children with
      | nil => simp [put, modifyLevel, hchildren]
      | cons g below =>
        have hinner := ih j (Nat.lt_of_succ_lt_succ h) g below
        simpa only [put, modifyLevel, level?_succ_cons, hchildren] using hinner

end Stack

namespace Turn
variable {t : Turn} {level : Nat} {a : Address} {f : Frame} {u : Stack} {l : Location}

theorem sharedOwner?_level_le (ha : t.sharedOwner? level f = some a) : a.level ≤ level := by
  obtain ⟨l, -, howner⟩ := Option.bind_eq_some_iff.mp ha
  simp only [Location.owner?, Option.bind_eq_bind, Option.bind_eq_some_iff] at howner
  obtain ⟨target, htarget, w, -, hfound⟩ := howner
  have hle := l.target?_level_le htarget
  split at hfound
  · have hsome := Option.some.inj hfound
    cases hsearch : Stack.ownerOutward?
        (w.downFrom target.position :: ((t.chain level).take target.level).reverse) with
    | none =>
      rw [hsearch, Option.getD_none] at hsome
      exact hsome ▸ hle
    | some x =>
      rw [hsearch, Option.getD_some] at hsome
      obtain ⟨_, _, hx, -⟩ := Stack.ownerOutward?_some hsearch
      have hlt := (List.getElem?_eq_some_iff.mp hx).1
      rw [List.length_reverse, List.length_cons, List.length_reverse, List.length_take] at hlt
      rw [← hsome]
      omega
  · cases hfound

/-- Under a new frame every other frame remembers what it did. -/
theorem memory_put (hu : t.stackAt? level = some u) (hlevel : a.level ≤ level)
    (hne : a ≠ ⟨level, u.length⟩) (f : Frame) :
    ((t.put level (f :: u)).frameAt? a).map Frame.memory =
      (t.frameAt? a).map Frame.memory := by
  obtain ⟨n, position⟩ := a
  rcases Nat.lt_or_eq_of_le hlevel with hlt | rfl
  · exact Stack.memory_put hlt position (f :: u) t.stack
  · have hposition : position ≠ u.length := fun h => hne (congrArg (Address.mk n) h)
    simp [frameAt?, stackAt?_put hu, hu, Stack.at?_cons, hposition]

/-- A command's frame, once pushed, shares what a frame that was there before holds. -/
theorem exists_target_pushed (hu : t.stackAt? level = some u)
    (hl : t.sharedLocation? level = some l) (f : Frame) :
    ∃ target w, l.target? level = some target ∧ target ≠ ⟨level, u.length⟩ ∧
      (t.put level (f :: u)).stackAt? target.level = some w ∧ target.position < w.length := by
  rw [sharedLocation?_eq hu] at hl
  cases u with
  | cons g rest =>
    obtain rfl : l = .own rest.length := (Option.some.inj hl).symm
    refine ⟨⟨level, rest.length⟩, f :: g :: rest, rfl, ?_, stackAt?_put hu _,
      Nat.lt_succ_of_lt (Nat.lt_succ_self rest.length)⟩
    exact fun h => Nat.succ_ne_self rest.length (congrArg Address.position h).symm
  | nil =>
    cases level with
    | zero => cases hl
    | succ outer =>
      obtain ⟨g, rest, hg⟩ := Stack.level?_outside hu (Nat.lt_succ_self outer)
      rw [Stack.hostAt_succ hg] at hl
      obtain rfl : l = .enclosing rest.length := (Option.some.inj hl).symm
      refine ⟨⟨outer, rest.length⟩, { g with children := [f] } :: rest, rfl, ?_, ?_,
        Nat.lt_succ_self rest.length⟩
      · exact fun h => Nat.succ_ne_self outer (congrArg Address.level h).symm
      · rw [stackAt?, put_stack, Stack.put_succ hg]
        exact Stack.level?_put hg _

/-- A command's frame, once pushed, finds its memory in a frame that was there before. -/
theorem exists_lender (hu : t.stackAt? level = some u) (hl : t.sharedLocation? level = some l)
    (id : String) :
    ∃ a g g', (t.put level (.sharing id l :: u)).holder? level = some a ∧ a.level ≤ level ∧
      t.frameAt? a = some g ∧ (t.put level (.sharing id l :: u)).frameAt? a = some g' ∧
      g'.memory = g.memory := by
  have hpushed := stackAt?_put hu (.sharing id l :: u)
  have hactive := active?_of_stackAt? hpushed
  obtain ⟨target, w, htarget, hbelow, hw, hposition⟩ :=
    exists_target_pushed hu hl (.sharing id l)
  obtain ⟨a, ha⟩ : ∃ a, (t.put level (.sharing id l :: u)).sharedOwner? level
      (.sharing id l) = some a := by
    have hchain := (chain_getElem? hpushed (l.target?_level_le htarget)).trans hw
    have hshared : (Frame.sharing id l).shared = some l := rfl
    simp [sharedOwner?, hshared, Location.owner?, htarget, hchain, hposition]
  obtain ⟨g', hg', howns⟩ := sharedOwner?_cases hactive ha
  have hne : a ≠ ⟨level, u.length⟩ := by
    rintro rfl
    rcases howns with hmemory | ⟨l', hl', htarget'⟩
    · simp only [frameAt?, hpushed, Option.bind_some, Stack.at?_cons, if_true] at hg'
      obtain rfl := Option.some.inj hg'
      cases hmemory
    · obtain rfl : l = l' := Option.some.inj hl'
      exact hbelow (Option.some.inj (htarget.symm.trans htarget'))
  have hlevel := sharedOwner?_level_le ha
  have hmemory := memory_put hu hlevel hne (.sharing id l)
  rw [hg', Option.map_some] at hmemory
  obtain ⟨g, hg, hsame⟩ := Option.map_eq_some_iff.mp hmemory.symm
  refine ⟨a, g, g', ?_, hlevel, hg, hg', hsame.symm⟩
  rw [holder?_of_none hactive rfl, ha, Option.getD_some]

end Turn

namespace Engine
variable {v : View} {s : Session} {id : String} {d : Dialog} {inputs : List (String × Json)}
  {options : Option Json} {e : Fault} {u : Stack}

/-- A frame that owns its memory is seeded there, and leaves nothing behind. -/
theorem begin_unseeded_owned (h : Prepared v s.turn id d inputs)
    (hu : s.turn.stackAt? v.level = some u)
    (hframe : newFrame d id s.turn v.level = .owning id) {t : Turn}
    (hseed : (s.turn.push v.level (newFrame d id s.turn v.level)).seed v.level
      (seeds d inputs options) = (.error e, t)) (caller : Caller) :
    begin caller v id options s = some (.error e, s) := by
  obtain ⟨m, outcome, howned⟩ := seed_pushed h hframe hu options
  obtain ⟨-, rfl⟩ := Prod.mk.inj (hseed.symm.trans howned)
  have hstack : (s.turn.put v.level ({ id, memory := some m } :: u)).stack =
      Stack.put v.level ([{ id, memory := some m }] ++ u) s.turn.stack := rfl
  rw [begin_of_prepared h, pushAndBegin_unseeded (Turn.level?_shape_of_stackAt? hu) hseed,
    Stack.length_bare, Turn.truncate_of_stack hu hstack]
  rfl

/-- A frame that shares a memory is seeded there. What was written before the value that
cannot be written stays when the frame is taken off. -/
theorem begin_unseeded_shared (h : Prepared v s.turn id d inputs)
    (hu : s.turn.stackAt? v.level = some u) {l : Location}
    (hl : s.turn.sharedLocation? v.level = some l)
    (hframe : newFrame d id s.turn v.level = .sharing id l) {t : Turn}
    (hseed : (s.turn.push v.level (newFrame d id s.turn v.level)).seed v.level
      (seeds d inputs options) = (.error e, t)) (caller : Caller) :
    ∃ a g m, (s.turn.push v.level (.sharing id l)).holder? v.level = some a ∧
      s.turn.frameAt? a = some g ∧
      Object.writeAll (seeds d inputs options) (g.memory.getD .empty) = (.error e, m) ∧
      begin caller v id options s =
        some (.error e, { s with turn := s.turn.withMemory a m }) := by
  have hpush : s.turn.push v.level (.sharing id l) = s.turn.put v.level (.sharing id l :: u) :=
    Turn.modifyStack_eq_put hu _
  obtain ⟨a, g, g', ha, hlevel, hg, hg', hsame⟩ := Turn.exists_lender hu hl id
  have hne : seeds d inputs options ≠ [] := by
    intro hnil
    rw [hnil] at hseed
    cases (Prod.mk.inj hseed).1
  have hheld := Turn.seed_holder (seeds_scoped h options) ha hg' hne
  rw [hsame, ← hpush, ← hframe, hseed] at hheld
  obtain ⟨hfails, rfl⟩ := Prod.mk.inj hheld
  refine ⟨a, g, _, by rw [hpush, ha], hg, Prod.ext hfails.symm rfl, ?_⟩
  rw [begin_of_prepared h, pushAndBegin_unseeded (Turn.level?_shape_of_stackAt? hu) hseed,
    Stack.length_bare, hframe, hpush, Turn.truncate_withMemory hu hg hlevel]

/-- A begin that cannot write a binding or the options into the new frame, of a dialog of any
kind and in any turn, calls no hook. Where the frame has a memory of its own, nothing has
changed. Where it is a command's that shares one, all frames, locations and scopes are as they
were, but the frame that holds that memory has kept what was written before the value that
could not be written; so nothing has changed just when it remembered all that already. -/
theorem begin_unseeded (h : Prepared v s.turn id d inputs)
    (hu : s.turn.stackAt? v.level = some u) {t : Turn}
    (hseed : (s.turn.push v.level (newFrame d id s.turn v.level)).seed v.level
      (seeds d inputs options) = (.error e, t)) (caller : Caller) :
    ((d.kind = .command → s.turn.sharedLocation? v.level = none) →
      begin caller v id options s = some (.error e, s)) ∧
    ∀ l, d.kind = .command → s.turn.sharedLocation? v.level = some l →
      ∃ a g before path value after m,
        (s.turn.push v.level (.sharing id l)).holder? v.level = some a ∧
        s.turn.frameAt? a = some g ∧
        seeds d inputs options = before ++ (path, value) :: after ∧
        Object.writeAll before (g.memory.getD .empty) = (.ok (), m) ∧
        (Path.parse path).bind (·.write value m) = .error e ∧
        begin caller v id options s =
          some (.error e, { s with turn := s.turn.withMemory a m }) ∧
        (s.turn.withMemory a m = s.turn ↔ g.memory = some m) := by
  constructor
  · intro howned
    have hframe : newFrame d id s.turn v.level = .owning id := by
      unfold newFrame
      split
      · next l hl =>
        split at hl
        · next hkind =>
          rw [howned hkind] at hl
          cases hl
        · cases hl
      · rfl
    exact begin_unseeded_owned h hu hframe hseed caller
  · intro l hkind hl
    have hframe : newFrame d id s.turn v.level = .sharing id l := by
      simp only [newFrame, if_pos hkind, hl]
    obtain ⟨a, g, m, ha, hg, hwrites, hbegin⟩ :=
      begin_unseeded_shared h hu hl hframe hseed caller
    obtain ⟨before, path, value, after, hsplit, hbefore, hfails⟩ :=
      Object.writeAll_error hwrites
    exact ⟨a, g, before, path, value, after, m, ha, hg, hsplit, hbefore, hfails, hbegin,
      Turn.withMemory_eq_self_iff hg⟩

end Engine

/-! ## A memo that cannot be begun -/

/-- A command that is told what the user last spoke of. -/
def Dialog.memo : Dialog where
  id := "memo"
  kind := .command
  inputs := [⟨"$topic", "user.topic"⟩]
  onBegin _ := return .waiting

def View.lobby : View where
  own := Table.empty.insert "memo" .memo

/-- Talk of tea, over a dialog that remembers something of its own where a command's options
would go. -/
def Session.overheard : Session where
  turn :=
    { activity := .message "c" "go"
      user := Table.empty.insert "topic" (.string "tea")
      stack := [⟨"base", some (Table.empty.insert "step" (.bool true)), none, []⟩] }

namespace Engine

theorem memo_prepared :
    Prepared .lobby Session.overheard.turn "memo" .memo [("$topic", .string "tea")] where
  found := rfl
  bound := by
    have htarget : Path.parse "$topic" = .ok ⟨"$topic", .dialog, ["topic"]⟩ :=
      Path.parse_eq (by decide +kernel)
    have hsource : Path.parse "user.topic" = .ok ⟨"user.topic", .user, ["topic"]⟩ :=
      Path.parse_eq (by decide +kernel)
    have hproperty : (Path.mk "$topic" .dialog ["topic"]).isExplicitDialogProperty = true := by
      decide +kernel
    simp only [Dialog.memo, readInputs, htarget, Turn.get, hsource, bind, Except.bind, hproperty]
    rfl

theorem memo_unseeded : ∃ t,
    (Session.overheard.turn.push 0 (newFrame .memo "memo" Session.overheard.turn 0)).seed 0
      (seeds .memo [("$topic", .string "tea")] (some (.bool true))) =
        (.error (.invalidPath "dialog.step.options"), t) := by
  have htopic : Path.parse "$topic" = .ok ⟨"$topic", .dialog, ["topic"]⟩ :=
    Path.parse_eq (by decide +kernel)
  have hoptions : Path.parse "dialog.step.options" =
      .ok ⟨"dialog.step.options", .dialog, ["step", "options"]⟩ :=
    Path.parse_eq (by decide +kernel)
  have hseeds : seeds .memo [("$topic", .string "tea")] (some (.bool true)) =
      [("$topic", .string "tea"), ("dialog.step.options", .bool true)] := rfl
  refine ⟨_, Prod.ext ?_ rfl⟩
  simp only [hseeds, Turn.seed, Turn.set, htopic, hoptions]
  rfl

/-- The memo is refused for the place of its options, which is taken. -/
theorem begin_unseeded_memo : ∃ before path value after m,
    [("$topic", .string "tea"), ("dialog.step.options", .bool true)] =
      before ++ (path, value) :: after ∧
    (Path.parse path).bind (·.write value m) = .error (.invalidPath "dialog.step.options") ∧
    begin (call 1) .lobby "memo" (some (.bool true)) .overheard =
      some (.error (.invalidPath "dialog.step.options"),
        { Session.overheard with turn := Session.overheard.turn.withMemory ⟨0, 0⟩ m }) := by
  obtain ⟨t, hseed⟩ := memo_unseeded
  obtain ⟨-, hshared⟩ := begin_unseeded memo_prepared rfl hseed (call 1)
  obtain ⟨a, g, before, path, value, after, m, ha, -, hsplit, -, hfails, hbegin, -⟩ :=
    hshared (.own 0) rfl rfl
  obtain rfl : (⟨0, 0⟩ : Address) = a := Option.some.inj ha
  exact ⟨before, path, value, after, m, hsplit, hfails, hbegin⟩

/-- The base dialog remembers a topic that it never had. -/
theorem begin_unseeded_overheard : ∃ t e s',
    Prepared .lobby Session.overheard.turn "memo" .memo [("$topic", .string "tea")] ∧
    (Session.overheard.turn.push 0 (newFrame .memo "memo" Session.overheard.turn 0)).seed 0
      (seeds .memo [("$topic", .string "tea")] (some (.bool true))) = (.error e, t) ∧
    begin (call 1) .lobby "memo" (some (.bool true)) .overheard = some (.error e, s') ∧
    s'.turn ≠ Session.overheard.turn := by
  have hkept : (begin (call 1) .lobby "memo" (some (.bool true)) .overheard).map (fun r =>
      ((r.2.turn.memory? 0).bind (·.find? "topic")).bind Json.string?) = some (some "tea") := by
    decide +kernel
  obtain ⟨t, hseed⟩ := memo_unseeded
  obtain ⟨⟨outcome, s'⟩, hbegin, hfound⟩ := Option.map_eq_some_iff.mp hkept
  have hfailed : ∃ turn, begin (call 1) .lobby "memo" (some (.bool true)) .overheard =
      some (.error (.invalidPath "dialog.step.options"),
        { Session.overheard with turn := turn }) := by
    rw [begin_of_prepared memo_prepared, pushAndBegin_unseeded (u := [_]) rfl hseed]
    exact ⟨_, rfl⟩
  obtain ⟨turn, hfailed⟩ := hfailed
  refine ⟨t, _, _, memo_prepared, hseed, hfailed, ?_⟩
  intro hsame
  rw [hfailed] at hbegin
  obtain ⟨-, rfl⟩ := Prod.mk.inj (Option.some.inj hbegin)
  rw [hsame] at hfound
  cases hfound

end Engine
end Colloquy
