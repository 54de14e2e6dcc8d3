import Colloquy.Proofs.Engine.Output
import Colloquy.Proofs.Engine.Unseeded
import Colloquy.Proofs.Runs.Rounds

/-!
# Bindings as parameters

A dialog is given values when it begins, and gives one back when it ends. What it is given was
read before its frame was there, and is all that the frame remembers when the dialog is told to
begin. What it gives back is written after its frame is gone, in the context of the dialog that
is resumed, and nothing else has changed when that one is told.
-/
namespace Colloquy

namespace Object

/-- An object with what a dialog was asked to do, if it was told. -/
def withOptions (m : Object) : Option Json → Object
  | none => m
  | some options => m.insert "options" options

end Object

/-- A binding that can be used: from a path to a property of the dialog that is begun. -/
def InputBinding.Sound (b : InputBinding) : Prop :=
  (∃ p, Path.parse b.target = .ok p ∧ p.isExplicitDialogProperty) ∧
    ∃ p, Path.parse b.source = .ok p

namespace Turn
variable {t t' : Turn} {level : Nat} {path : String} {p q : Path} {m : Object} {value : Json}

/-! ## Writing where a path leads -/

/-- Another object in one scope is not seen in the others. -/
theorem scoped?_withScope_of_ne {scope other : Scope} (h : other ≠ scope) (t : Turn)
    (level : Nat) (m : Object) :
    (t.withScope level m scope).scoped? level other = t.scoped? level other := by
  cases scope with
  | settings => rfl
  | user | conversation | turn =>
    cases other with
    | user | conversation | turn => first | rfl | exact absurd rfl h
    | settings | dialog => rfl
  | dialog =>
    simp only [withScope]
    cases t.holder? level with
    | none => rfl
    | some a =>
      cases other with
      | dialog => exact absurd rfl h
      | settings | user | conversation | turn => rfl

/-- Without an object a path with keys reads what it reads in an empty one. -/
theorem bind_read (hkeys : q.keys ≠ []) (m : Option Object) :
    m.bind q.read = q.read (m.getD .empty) := by
  cases m with
  | none => exact (Json.at?_empty hkeys).symm
  | some m => rfl

/-- The second turn is the first with a value where a path leads. It is read there, and the
objects on the way to it were opened where they were missing. Whatever path leads elsewhere
reads what it read before. Nothing but the object of one scope is another: if that is the memory
of a dialog, one frame has another memory, and all else stays. -/
structure Receives (level : Nat) (p : Path) (value : Json) (t t' : Turn) : Prop where
  written : ∃ m, p.write value ((t.scoped? level p.scope).getD .empty) = .ok m ∧
    t' = t.withScope level m p.scope
  there : ∀ path q, Path.parse path = .ok q → q.scope = p.scope → q.keys = p.keys →
    t'.get level path = .ok (some value)
  onWay : ∀ path q, Path.parse path = .ok q → q.scope = p.scope → q.keys <+: p.keys →
    q.keys ≠ p.keys → ∃ inner, t'.get level path = .ok (some (.object inner))
  elsewhere : ∀ path q, Path.parse path = .ok q →
    q.scope ≠ p.scope ∨ Object.Apart q.keys p.keys → t'.get level path = t.get level path
  held : p.scope = .dialog → ∃ a, t.holder? level = some a ∧ WrittenAt a t t'

theorem receives_of_set (hp : Path.parse path = .ok p)
    (h : t.set level path value = (.ok (), t')) : t.Receives level p value t' := by
  obtain ⟨p', m, hp', -, hwrite, rfl, hnow⟩ := set_ok h
  obtain rfl := Except.ok.inj (hp.symm.trans hp')
  have hget {path' : String} {q : Path} (hq : Path.parse path' = .ok q)
      (hscope : q.scope = p.scope) :
      (t.withScope level m p.scope).get level path' = .ok (q.read m) := by
    rw [get_eq hq, hscope, hnow, Option.bind_some]
  refine ⟨⟨m, hwrite, rfl⟩, fun path' q hq hscope hkeys => ?_,
    fun path' q hq hscope hway hne => ?_, fun path' q hq hapart => ?_, fun hscope => ?_⟩
  · rw [hget hq hscope, Path.read_of_write hwrite hkeys]
  · obtain ⟨inner, hinner⟩ :=
      Object.exists_object_on_way (Path.write_eq_ok_iff.mp hwrite) hway hne
    exact ⟨inner, (hget hq hscope).trans (congrArg Except.ok hinner)⟩
  · by_cases hscope : q.scope = p.scope
    · have hkeys := hapart.resolve_left fun hne => hne hscope
      have hsame : q.read m = q.read ((t.scoped? level p.scope).getD .empty) :=
        Object.at?_writeAt?_of_apart (Path.write_eq_ok_iff.mp hwrite) hkeys
      rw [hget hq hscope, get_eq hq, hscope, bind_read hkeys.ne_nil, hsame]
    · rw [get_eq hq, get_eq hq, scoped?_withScope_of_ne hscope]
  · rw [hscope] at hnow ⊢
    cases ha : t.holder? level with
    | none =>
      have hnone : t.memory? level = none := by rw [memory?_eq, ha, Option.bind_none]
      simp [withScope, ha, scoped?, hnone] at hnow
    | some a =>
      refine ⟨a, rfl, ?_⟩
      simp only [withScope, ha]
      exact writtenAt_withMemory t a m

/-! ## What is given -/

/-- The values that the sources of bindings have in a turn, in order and with their targets.
A source that has none is skipped. -/
def sourced (t : Turn) (level : Nat) (bindings : List InputBinding) : List (String × Json) :=
  bindings.filterMap fun b => (t.get level b.source).toOption.join.map fun value =>
    (b.target, value)

/-- A dialog that can begin on a stack: its bindings can be used, and what they copy goes, in
order, into an empty memory, which then is this one. -/
structure Seedable (t : Turn) (level : Nat) (d : Dialog) (m : Object) : Prop where
  stack : (t.stackAt? level).isSome
  sound : ∀ b ∈ d.inputs, b.Sound
  written : Object.writeAll (t.sourced level d.inputs) .empty = (.ok (), m)

end Turn

namespace Engine
variable {caller : Caller} {v : View} {s s₁ : Session} {d : Dialog} {id : String}
  {options result : Option Json} {t : Turn} {u : Stack} {m : Object}

theorem readInputs_cons {level : Nat} {b : InputBinding} (hb : b.Sound)
    (rest : List InputBinding) : readInputs t level (b :: rest) =
      (readInputs t level rest).map (t.sourced level [b] ++ ·) := by
  obtain ⟨⟨p, hp, hproperty⟩, q, hq⟩ := hb
  simp only [readInputs, bind, Except.bind, hp, hproperty, Turn.sourced, Turn.get_eq hq,
    List.filterMap_cons, List.filterMap_nil]
  cases readInputs t level rest with
  | error e => rfl
  | ok more => cases (t.scoped? level q.scope).bind q.read <;> rfl

theorem readInputs_unsound {b : InputBinding} (hb : ¬ b.Sound) (t : Turn) (level : Nat)
    (rest : List InputBinding) : ∃ e, readInputs t level (b :: rest) = .error e := by
  cases hp : Path.parse b.target with
  | error e => exact ⟨e, by simp [readInputs, bind, Except.bind, hp]⟩
  | ok p =>
    cases hproperty : p.isExplicitDialogProperty with
    | false => exact ⟨_, by simp [readInputs, bind, Except.bind, hp, hproperty]; rfl⟩
    | true =>
      cases hq : Path.parse b.source with
      | error e =>
        exact ⟨e, by simp [readInputs, bind, Except.bind, hp, hproperty, Turn.get, hq]⟩
      | ok q => exact absurd ⟨⟨p, hp, hproperty⟩, q, hq⟩ hb

/-- Input bindings are read if all of them can be used, and then their sources are read. -/
theorem readInputs_eq_ok_iff {level : Nat} {bindings : List InputBinding}
    {inputs : List (String × Json)} : readInputs t level bindings = .ok inputs ↔
      (∀ b ∈ bindings, b.Sound) ∧ inputs = t.sourced level bindings := by
  induction bindings generalizing inputs with
  | nil => simp [readInputs, Turn.sourced, eq_comm]
  | cons b rest ih =>
    constructor
    · intro hread
      by_cases hb : b.Sound
      · rw [readInputs_cons hb] at hread
        cases hrest : readInputs t level rest with
        | error e =>
          rw [hrest] at hread
          cases hread
        | ok more =>
          rw [hrest] at hread
          obtain rfl := Except.ok.inj hread
          obtain ⟨hall, rfl⟩ := ih.mp hrest
          exact ⟨List.forall_mem_cons.mpr ⟨hb, hall⟩, List.filterMap_append.symm⟩
      · obtain ⟨e, hfails⟩ := readInputs_unsound hb t level rest
        rw [hfails] at hread
        cases hread
    · rintro ⟨hsound, rfl⟩
      obtain ⟨hb, hall⟩ := List.forall_mem_cons.mp hsound
      rw [readInputs_cons hb, ih.mpr ⟨hall, rfl⟩]
      exact congrArg Except.ok List.filterMap_append.symm

theorem prepared_of_sound (hfound : lookUp v id = .ok d) (hsound : ∀ b ∈ d.inputs, b.Sound)
    (t : Turn) : Prepared v t id d (t.sourced v.level d.inputs) :=
  ⟨hfound, readInputs_eq_ok_iff.mpr ⟨hsound, rfl⟩⟩

/-! ## Beginning -/

/-- What comes of a dialog that was told to begin: if it fails, the stack is as deep as it was. -/
def withdrawn (level depth : Nat) (r : Except Fault TurnResult × Session) :
    Except Fault TurnResult × Session :=
  (r.1, if r.1.isOk then r.2 else { r.2 with turn := r.2.turn.truncate level depth })

theorem seeds_eq (hkind : d.kind ≠ .command) (inputs : List (String × Json))
    (options : Option Json) :
    seeds d inputs options = inputs ++ Json.optional "dialog.options" options := by
  rw [seeds, optionsPath, if_neg hkind]

theorem writeAll_options (m : Object) (options : Option Json) :
    Object.writeAll (Json.optional "dialog.options" options) m =
      (.ok (), m.withOptions options) := by
  cases options with
  | none => rfl
  | some value =>
    simp only [Json.optional, Object.writeAll, parse_options]
    rfl

/-- A dialog that can begin is told to, in a frame that remembers what it was given. -/
theorem begin_seedable (hfound : lookUp v id = .ok d) (hkind : d.kind ≠ .command)
    (h : s.turn.Seedable v.level d m) (options : Option Json) :
    begin caller v id options s =
      (caller v d (.begin options)
        { s with turn := s.turn.push v.level { id, memory := some (m.withOptions options) } }).map
          (withdrawn v.level (s.turn.depth v.level)) := by
  obtain ⟨u, hu⟩ := Option.isSome_iff_exists.mp h.stack
  have hpush : s.turn.push v.level { id, memory := some (m.withOptions options) } =
      s.turn.put v.level ({ id, memory := some (m.withOptions options) } :: u) :=
    Turn.modifyStack_eq_put hu _
  have hwrites : Object.writeAll (seeds d (s.turn.sourced v.level d.inputs) options) .empty =
      (.ok (), m.withOptions options) := by
    rw [seeds_eq hkind, Object.writeAll_append_ok h.written, writeAll_options]
  rw [hpush, Turn.depth_of_stackAt? hu]
  exact begin_seeded (prepared_of_sound hfound h.sound s.turn) hkind hu hwrites

theorem pushAndBegin_detached (hu : s.turn.stackAt? v.level = none)
    (inputs : List (String × Json)) :
    pushAndBegin caller v d id inputs options s = some (.error .detached, s) := by
  simp only [pushAndBegin, Eval.bind_apply, Eval.turn, pushFrame, Eval.onTurn, hu]

/-- A dialog that cannot begin is refused, and nothing has changed. -/
theorem begin_not_seedable (hfound : lookUp v id = .ok d) (hkind : d.kind ≠ .command)
    (h : ∀ m, ¬ s.turn.Seedable v.level d m) (options : Option Json) :
    ∃ e, begin caller v id options s = some (.error e, s) := by
  by_cases hsound : ∀ b ∈ d.inputs, b.Sound
  · have hprepared := prepared_of_sound hfound hsound s.turn
    cases hu : s.turn.stackAt? v.level with
    | none =>
      exact ⟨.detached, by rw [begin_of_prepared hprepared, pushAndBegin_detached hu]⟩
    | some u =>
      cases hwritten : Object.writeAll (s.turn.sourced v.level d.inputs) .empty with
      | mk outcome m =>
        cases outcome with
        | ok => exact absurd ⟨Option.isSome_of_mem hu, hsound, hwritten⟩ (h m)
        | error e =>
          have hwrites : Object.writeAll (seeds d (s.turn.sourced v.level d.inputs) options)
              .empty = (.error e, m) := by
            rw [seeds_eq hkind, Object.writeAll_append_error hwritten]
          exact ⟨e, begin_unseeded_owned hprepared hu (newFrame_owning hkind id s.turn v.level)
            (push_seeded hprepared hkind hu hwrites) caller⟩
  · cases hread : readInputs s.turn v.level d.inputs with
    | ok inputs => exact absurd (readInputs_eq_ok_iff.mp hread).1 hsound
    | error e => exact ⟨e, begin_of_unprepared (.inr ⟨d, hfound, hread⟩)⟩

/-! ## Ending -/

/-- The active dialog was told of its end, and this is what its hook has left. -/
structure Told (caller : Caller) (v : View) (d : Dialog) (reason : Reason) (s s₁ : Session) :
    Prop where
  active : ∃ f rest, s.turn.stackAt? v.level = some (f :: rest) ∧ v.find? f.id = some d
  told : caller v d (.close reason) s = some (.ok (), s₁)
  left : (s₁.turn.stackAt? v.level).isSome

theorem endActive_told {reason : Reason} (h : Told caller v d reason s s₁)
    (result : Option Json) : endActive caller v reason result s =
      writeOutput v d result { s₁ with turn := s₁.turn.pop v.level } := by
  obtain ⟨f, rest, hu, hd⟩ := h.active
  obtain ⟨u, hu₁⟩ := Option.isSome_iff_exists.mp h.left
  simp only [endActive, Eval.bind_apply, Eval.turn, Turn.active?_of_stackAt? hu, hd, h.told,
    popFrame_eq hu₁]

theorem finish_told (h : Told caller v d .ended s s₁) (result : Option Json) :
    finish caller v result s =
      (writeOutput v d result >>= fun _ => handOver caller v result)
        { s₁ with turn := s₁.turn.pop v.level } := by
  obtain ⟨f, rest, hu, hd⟩ := h.active
  obtain ⟨u, hu₁⟩ := Option.isSome_iff_exists.mp h.left
  exact finish_eq hu hd h.told hu₁ result

/-- Changes that move nothing leave the dialogs that the frames are of. -/
theorem active?_of_same_shape {level : Nat} {t t' : Turn} {g : Frame}
    (hg : t.active? level = some g) (hshape : t'.shape = t.shape) :
    ∃ g', t'.active? level = some g' ∧ g'.id = g.id := by
  obtain ⟨rest, hu⟩ := Turn.stackAt?_of_active? hg
  have hlevel := Turn.level?_shape_of_stackAt? hu
  rw [← hshape] at hlevel
  obtain ⟨g', hg', hbare⟩ := Turn.active?_of_shape hlevel
  exact ⟨g', hg', by rw [← Frame.bare_id, hbare, Frame.bare_id]⟩

/-- A result that can be written where the binding says is there when the dialog below is
resumed. -/
theorem finish_bound (h : Told caller v d .ended s s₁) {binding : String}
    (hout : d.output = some binding) {g : Frame}
    (hg : (s₁.turn.pop v.level).active? v.level = some g) {value : Json}
    (husable : ∀ e, ¬ (s₁.turn.pop v.level).Unusable v.level binding e) :
    ∃ p t, Path.parse binding = .ok p ∧ (s₁.turn.pop v.level).Receives v.level p value t ∧
      t.get v.level binding = .ok (some value) ∧
      ∀ d', v.find? g.id = some d' → finish caller v (some value) s =
        caller v d' (.resume .ended (some value)) { s₁ with turn := t } := by
  obtain ⟨t, hwrite, hleft⟩ := writeOutput_usable (v := v) (d := d)
    (s := { s₁ with turn := s₁.turn.pop v.level }) hout husable value
  rcases hleft with ⟨-, hidle⟩ | hset
  · rw [hg] at hidle
    cases hidle
  · cases hp : Path.parse binding with
    | error e => exact absurd (.malformed hp) (husable e)
    | ok p =>
      have hshape : t.shape = (s₁.turn.pop v.level).shape := by
        rw [← Turn.shape_set (s₁.turn.pop v.level) v.level binding value, hset]
      obtain ⟨g', hg', hid⟩ := active?_of_same_shape hg hshape
      have hreceives := Turn.receives_of_set hp hset
      refine ⟨p, t, rfl, hreceives, hreceives.there binding p hp rfl rfl, fun d' hd' => ?_⟩
      rw [finish_told h, Eval.bind_apply, hwrite]
      simp only [handOver, Eval.bind_apply, Eval.turn, hg', registered, hid, hd']

/-- Bindings pass values as parameters are passed. A dialog that is no command is told to begin
in a turn that differs from the one before by its frame, and the frame remembers just what its
bindings' sources had before, written in order into an empty memory, and the options it was
begun with; where that cannot be, it is told nothing and nothing has changed. A dialog that gives
back a value over another frame has it written after its frame is gone: when the dialog of that
frame is resumed, the value is read in its context where the binding says, and nothing else has
changed since the end hook but that the frame is gone; where the value cannot be written, the end
fails. Nothing is written where there is no value, or where the binding is about the memory of a
dialog and no frame is left. -/
theorem bindings_pass (caller : Caller) (v : View) (d : Dialog) (s : Session) :
    (∀ id options, lookUp v id = .ok d → d.kind ≠ .command →
      (∀ m, s.turn.Seedable v.level d m → begin caller v id options s =
        (caller v d (.begin options) { s with
          turn := s.turn.push v.level { id, memory := some (m.withOptions options) } }).map
            (withdrawn v.level (s.turn.depth v.level))) ∧
      ((∀ m, ¬ s.turn.Seedable v.level d m) →
        ∃ e, begin caller v id options s = some (.error e, s))) ∧
    (∀ s₁ binding g value, Told caller v d .ended s s₁ → d.output = some binding →
      (s₁.turn.pop v.level).active? v.level = some g →
      ((∀ e, ¬ (s₁.turn.pop v.level).Unusable v.level binding e) →
        ∃ p t, Path.parse binding = .ok p ∧ (s₁.turn.pop v.level).Receives v.level p value t ∧
          t.get v.level binding = .ok (some value) ∧
          ∀ d', v.find? g.id = some d' → finish caller v (some value) s =
            caller v d' (.resume .ended (some value)) { s₁ with turn := t }) ∧
      ∀ e, (s₁.turn.pop v.level).Unusable v.level binding e →
        ∃ t, finish caller v (some value) s = some (.error e, { s₁ with turn := t })) ∧
    (∀ s₁ reason, Told caller v d reason s s₁ →
      endActive caller v reason none s =
        some (.ok (), { s₁ with turn := s₁.turn.pop v.level })) ∧
    ∀ s₁ reason binding p value, Told caller v d reason s s₁ → d.output = some binding →
      Path.parse binding = .ok p → p.scope = .dialog →
      (s₁.turn.pop v.level).active? v.level = none →
      endActive caller v reason (some value) s =
        some (.ok (), { s₁ with turn := s₁.turn.pop v.level }) := by
  refine ⟨fun id options hfound hkind => ⟨fun m hseedable => ?_, fun hnone => ?_⟩,
    fun s₁ binding g value htold hout hg => ⟨fun husable => ?_, fun e hunusable => ?_⟩,
    fun s₁ reason htold => ?_, fun s₁ reason binding p value htold hout hp hscope hidle => ?_⟩
  · exact begin_seedable hfound hkind hseedable options
  · exact begin_not_seedable hfound hkind hnone options
  · exact finish_bound htold hout hg husable
  · obtain ⟨t, hwrite, -⟩ := writeOutput_unusable (v := v) (d := d)
      (s := { s₁ with turn := s₁.turn.pop v.level }) hout hunusable value
    exact ⟨t, by rw [finish_told htold, Eval.bind_apply, hwrite]⟩
  · rw [endActive_told htold, writeOutput_none]
    rfl
  · rw [endActive_told htold]
    exact writeOutput_skipped hout hp hscope hidle value

end Engine

/-! ## An echo -/

/-- A dialog that is given a name and leaves an answer with the dialog below it. -/
def Dialog.echo : Dialog where
  id := "echo"
  inputs := [⟨"dialog.name", "user.name"⟩]
  output := some "dialog.answer"
  onBegin _ := return .waiting

def View.valley : View where
  own := (Table.empty.insert "host" (.patient "host")).insert "echo" .echo

/-- A user with a name, and what is running. -/
def Session.calling (stack : Stack) : Session where
  turn :=
    { activity := .message "c" "hello"
      user := Table.empty.insert "name" (.string "Ada")
      stack }

theorem Path.parse_answer :
    parse "dialog.answer" = .ok ⟨"dialog.answer", .dialog, ["answer"]⟩ :=
  parse_eq (by decide +kernel)

theorem Turn.seedable_echo : (Session.calling [.owning "host"]).turn.Seedable 0 .echo
    (Table.empty.insert "name" (.string "Ada")) := by
  have htarget : Path.parse "dialog.name" = .ok ⟨"dialog.name", .dialog, ["name"]⟩ :=
    Path.parse_eq (by decide +kernel)
  have hsource : Path.parse "user.name" = .ok ⟨"user.name", .user, ["name"]⟩ :=
    Path.parse_eq (by decide +kernel)
  refine ⟨rfl, fun b hb => ?_, ?_⟩
  · obtain rfl := List.mem_singleton.mp hb
    exact ⟨⟨_, htarget, by decide +kernel⟩, _, hsource⟩
  · have hsourced : (Session.calling [.owning "host"]).turn.sourced 0 Dialog.echo.inputs =
        [("dialog.name", .string "Ada")] := by
      simp only [Dialog.echo, sourced, List.filterMap_cons, get_eq hsource]
      rfl
    simp only [hsourced, Object.writeAll, htarget]
    rfl

/-- The echo begins with the name, and the host is answered with it. -/
theorem Engine.bindings_pass_echo :
    (∃ entry, begin (call 1) .valley "echo" none (.calling [.owning "host"]) =
      some (.ok .waiting, {
        turn := (Session.calling [.owning "host"]).turn.push 0
          { id := "echo", memory := some (Table.empty.insert "name" (.string "Ada")) }
        journal := [entry] })) ∧
    ∃ t entries, finish (call 1) .valley (some (.string "Ada"))
        (.calling [.owning "echo", .owning "host"]) =
      some (.ok .waiting, { turn := t, journal := entries }) ∧
      t.get 0 "dialog.answer" = .ok (some (.string "Ada")) := by
  constructor
  · obtain ⟨hbegins, -⟩ := bindings_pass (call 1) .valley .echo (.calling [.owning "host"])
    obtain ⟨htold, -⟩ := hbegins "echo" none rfl (by decide)
    exact ⟨_, htold _ Turn.seedable_echo⟩
  · obtain ⟨-, hends, -⟩ :=
      bindings_pass (call 1) .valley .echo (.calling [.owning "echo", .owning "host"])
    obtain ⟨during, hclose⟩ : ∃ during, call 1 .valley .echo (.close .ended)
        (.calling [.owning "echo", .owning "host"]) = some (.ok (),
          { Session.calling [.owning "echo", .owning "host"] with journal := [during] }) :=
      ⟨_, rfl⟩
    obtain ⟨hresumes, -⟩ := hends _ "dialog.answer" (.owning "host") (.string "Ada")
      ⟨⟨_, _, rfl, rfl⟩, hclose, rfl⟩ rfl rfl
    have husable (e : Fault) : ¬ ((Session.calling [.owning "echo", .owning "host"]).turn.pop
        0).Unusable 0 "dialog.answer" e := by
      intro hunusable
      have hfails := (@Turn.set_fails_iff _ _ _ (.string "Ada") e fun _ _ _ => rfl).mpr hunusable
      rw [Turn.set, Path.parse_answer] at hfails
      cases hfails
    obtain ⟨p, t, -, -, hread, hresumed⟩ := hresumes husable
    exact ⟨t, _, hresumed (.patient "host") rfl, hread⟩

end Colloquy
