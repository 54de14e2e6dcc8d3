import Colloquy.Proofs.Detachment
import Colloquy.Proofs.Engine.Pushdown
import Colloquy.Proofs.Engine.Seeding
import Colloquy.Proofs.Nesting.Layers

/-!
# Begins that fail

A dialog that begins may start others over its frame and inside it, and these may start
more. When it then fails, all of them are gone, and every frame that was there before is
there as it was, with its memory, the location it shares and the stack it hosts. A failed
replacement leaves the stacks alone too: it takes one frame off and puts it back.
-/
namespace Colloquy

namespace Dialog

/-- A new frame of the dialog is active at the level of a view, over others. -/
structure Fresh (v : View) (d : Dialog) (t : Turn) (f : Frame) (rest : Stack) : Prop where
  stack : t.stackAt? v.level = some (f :: rest)
  dialog : v.find? f.id = some d
  owns : f.memory.isSome
  shares : f.shared = none
  hosts : f.children = []

/-- The dialog's begin hook starts dialogs only over its own frame and inside it: whatever
comes of it, the frames below and around are as they were. -/
def Additive (v : View) (d : Dialog) : Prop :=
  ∀ ⦃fuel options s f rest outcome s'⦄, d.Fresh v s.turn f rest →
    Engine.call fuel v d (.begin options) s = some (outcome, s') →
    ∃ more, s'.turn.stack = Stack.put v.level (more ++ rest) s.turn.stack

end Dialog

/-- Taking off what is over a stack gives that stack back. -/
theorem Turn.truncate_of_stack {t : Turn} {level : Nat} {w u more : Stack}
    (hu : Stack.level? level w = some u) (h : t.stack = Stack.put level (more ++ u) w) :
    t.truncate level u.length = { t with stack := w } := by
  have htop : t.stackAt? level = some (more ++ u) := by
    rw [stackAt?, h]
    exact Stack.level?_put hu _
  have hbelow : Stack.truncate (more ++ u) u.length = u := by simp [Stack.truncate]
  rw [truncate, modifyStack_eq_put htop, hbelow, put, h, Stack.put_put, Stack.put_self hu]

namespace Engine
variable {caller : Caller} {fuel : Nat} {v : View} {d : Dialog} {s s' : Session} {id : String}
  {options : Option Json} {inputs : List (String × Json)} {e : Fault}
  {outcome : Except Fault TurnResult} {asked : Turn} {u : Stack}

/-- What is left of a session by a begin that fails once a frame has been pushed. If the
dialog was not told to begin, nothing has changed. If it was, then what its hook left is
there, but with the stacks of before. The hook found the session as it was, but for the
stacks. -/
inductive Undone (caller : Caller) (v : View) (d : Dialog) (options : Option Json) (s : Session)
    (e : Fault) : Session → Prop
  | untold : Undone caller v d options s e s
  | told {found after : Session}
      (hfound : found = { s with turn := { s.turn with stack := found.turn.stack } })
      (hcall : caller v d (.begin options) found = some (.error e, after)) :
      Undone caller v d options s e
        { after with turn := { after.turn with stack := s.turn.stack } }

theorem Undone.stack (h : Undone caller v d options s e s') : s'.turn.stack = s.turn.stack := by
  cases h <;> rfl

/-- Sessions that differ in their stacks are left alike, but for the stacks. -/
theorem Undone.restack (h : Undone caller v d options s e s') (w : Stack) :
    Undone caller v d options { s with turn := { s.turn with stack := w } } e
      { s' with turn := { s'.turn with stack := w } } := by
  cases h with
  | untold => exact .untold
  | @told found after hfound hcall =>
    refine @Undone.told _ _ _ _ _ _ found after ?_ hcall
    rw [hfound]

/-! ## Beginning -/

/-- A push either comes to nothing, or the dialog is told to begin in a new frame. -/
theorem pushAndBegin_cases (h : Prepared v asked id d inputs) (hkind : d.kind ≠ .command)
    (hu : s.turn.stackAt? v.level = some u)
    (hrun : pushAndBegin (call fuel) v d id inputs options s = some (outcome, s')) :
    (∃ e, outcome = .error e ∧ s' = s) ∨
      ∃ f after, f.id = id ∧ d.Fresh v (s.turn.put v.level (f :: u)) f u ∧
        call fuel v d (.begin options) { s with turn := s.turn.put v.level (f :: u) } =
          some (outcome, after) ∧
        s' = if outcome.isOk then after
          else { after with turn := after.turn.truncate v.level u.length } := by
  have hs := Turn.level?_shape_of_stackAt? hu
  obtain ⟨m, seeded, hseed⟩ := seed_pushed h (newFrame_owning hkind id s.turn v.level) hu options
  cases seeded with
  | error e =>
    have hstack : (s.turn.put v.level ({ id, memory := some m } :: u)).stack =
        Stack.put v.level ([{ id, memory := some m }] ++ u) s.turn.stack := rfl
    rw [pushAndBegin_unseeded hs hseed, Stack.length_bare,
      Turn.truncate_of_stack hu hstack] at hrun
    obtain ⟨rfl, rfl⟩ := Prod.mk.inj (Option.some.inj hrun)
    exact .inl ⟨e, rfl, rfl⟩
  | ok =>
    rw [pushAndBegin_told hs hseed, Stack.length_bare] at hrun
    obtain ⟨⟨result, after⟩, hcall, heq⟩ := Option.map_eq_some_iff.mp hrun
    obtain ⟨rfl, rfl⟩ := Prod.mk.inj heq
    exact .inr ⟨{ id, memory := some m }, after, rfl,
      ⟨Turn.stackAt?_put hu _, find?_of_lookUp h.found, rfl, rfl, rfl⟩, hcall, rfl⟩

theorem pushAndBegin_additive (h : Prepared v asked id d inputs) (hkind : d.kind ≠ .command)
    (hadditive : d.Additive v) (hu : s.turn.stackAt? v.level = some u)
    (hrun : pushAndBegin (call fuel) v d id inputs options s = some (outcome, s')) :
    (∃ more, s'.turn.stack = Stack.put v.level (more ++ u) s.turn.stack) ∧
      ∀ e, outcome = .error e → Undone (call fuel) v d options s e s' := by
  rcases pushAndBegin_cases h hkind hu hrun with
    ⟨e₀, rfl, rfl⟩ | ⟨f, after, -, hfresh, hcall, hafter⟩
  · refine ⟨⟨[], (Stack.put_self hu).symm⟩, ?_⟩
    rintro e ⟨⟩
    exact .untold
  · obtain ⟨more, hmore⟩ := hadditive hfresh hcall
    rw [Turn.put_stack, Stack.put_put] at hmore
    cases outcome with
    | ok r =>
      obtain rfl : s' = after := hafter
      refine ⟨⟨more, hmore⟩, ?_⟩
      rintro e ⟨⟩
    | error e₀ =>
      have htruncated : after.turn.truncate v.level u.length =
          { after.turn with stack := s.turn.stack } := Turn.truncate_of_stack hu hmore
      obtain rfl : s' = { after with turn := { after.turn with stack := s.turn.stack } } := by
        rw [← htruncated]
        exact hafter
      refine ⟨⟨[], (Stack.put_self hu).symm⟩, ?_⟩
      rintro e ⟨⟩
      exact .told rfl hcall

/-- The id means no command, and the dialog that it means starts others only over its own
frame and inside it. -/
def Starts (v : View) (id : String) : Prop :=
  ∀ d, v.find? id = some d → d.kind ≠ .command ∧ d.Additive v

theorem begin_additive (h : Starts v id) (hu : s.turn.stackAt? v.level = some u)
    (hrun : begin (call fuel) v id options s = some (outcome, s')) :
    ∃ more, s'.turn.stack = Stack.put v.level (more ++ u) s.turn.stack := by
  rcases prepared_or v s.turn id with ⟨d, inputs, hprepared⟩ | ⟨e, hunprepared⟩
  · obtain ⟨hkind, hadditive⟩ := h d (find?_of_lookUp hprepared.found)
    rw [begin_of_prepared hprepared] at hrun
    exact (pushAndBegin_additive hprepared hkind hadditive hu hrun).1
  · rw [begin_of_unprepared hunprepared] at hrun
    obtain ⟨rfl, rfl⟩ := Prod.mk.inj (Option.some.inj hrun)
    exact ⟨[], (Stack.put_self hu).symm⟩

theorem begin_fails (h : Starts v id)
    (hrun : begin (call fuel) v id options s = some (.error e, s')) :
    (Unprepared v s.turn id e ∧ s' = s) ∨
      ∃ d inputs, Prepared v s.turn id d inputs ∧ Undone (call fuel) v d options s e s' := by
  rcases prepared_or v s.turn id with ⟨d, inputs, hprepared⟩ | ⟨e₀, hunprepared⟩
  · refine .inr ⟨d, inputs, hprepared, ?_⟩
    obtain ⟨hkind, hadditive⟩ := h d (find?_of_lookUp hprepared.found)
    cases hu : s.turn.stackAt? v.level with
    | none =>
      rw [begin_detached hu hprepared] at hrun
      obtain ⟨-, rfl⟩ := Prod.mk.inj (Option.some.inj hrun)
      exact .untold
    | some u =>
      rw [begin_of_prepared hprepared] at hrun
      exact (pushAndBegin_additive hprepared hkind hadditive hu hrun).2 e rfl
  · rw [begin_of_unprepared hunprepared] at hrun
    obtain ⟨he, rfl⟩ := Prod.mk.inj (Option.some.inj hrun)
    obtain rfl := Except.error.inj he
    exact .inl ⟨hunprepared, rfl⟩

/-! ## Replacing -/

/-- A frame put back over the stack that it was taken from. -/
theorem restore_popped {t : Turn} {f : Frame} {rest w : Stack}
    (hw : Stack.level? v.level w = some (f :: rest))
    (h : t.stack = Stack.put v.level rest w) :
    restore v.level rest.length f t = { t with stack := w } := by
  have hrest : t.stackAt? v.level = some rest := by
    rw [Turn.stackAt?, h]
    exact Stack.level?_put hw rest
  have hsame : t.truncate v.level rest.length = t := by
    rw [Turn.truncate, Turn.modifyStack_eq_put hrest, Stack.truncate_length,
      Turn.put_self hrest]
  simp only [restore, hsame, hrest, if_true]
  rw [Turn.push, Turn.modifyStack_eq_put hrest, Turn.put, h, Stack.put_put, Stack.put_self hw]

/-- If all that is over what was beneath the replaced frame has been taken off, then the
stacks are as they were once that frame is back, or once it turned out that there was none. -/
theorem restore_replaced (hu : s.turn.stackAt? v.level = some u) {after : Session}
    (h : after.turn.stack = Stack.put v.level u.tail s.turn.stack) :
    ((s.turn.active? v.level).elim after fun f =>
      { after with turn := restore v.level u.tail.length f after.turn }) =
        { after with turn := { after.turn with stack := s.turn.stack } } := by
  cases u with
  | nil =>
    have hstack : after.turn.stack = s.turn.stack := h.trans (Stack.put_self hu)
    rw [Turn.active?_of_empty hu, ← hstack]
    rfl
  | cons f rest =>
    have hrestored : restore v.level rest.length f after.turn =
        { after.turn with stack := s.turn.stack } := restore_popped hu h
    rw [Turn.active?_of_stackAt? hu, ← hrestored]
    rfl

theorem replace_fails (h : Starts v id)
    (hrun : replace (call fuel) v id options s = some (.error e, s')) :
    (Unprepared v s.turn id e ∧ s' = s) ∨ ∃ d inputs, Prepared v s.turn id d inputs ∧
      Undone (call fuel) v d options { s with turn := s.turn.repeating id } e s' := by
  rcases prepared_or v s.turn id with ⟨d, inputs, hprepared⟩ | ⟨e₀, hunprepared⟩
  · refine .inr ⟨d, inputs, hprepared, ?_⟩
    obtain ⟨hkind, hadditive⟩ := h d (find?_of_lookUp hprepared.found)
    cases hu : s.turn.stackAt? v.level with
    | none =>
      rw [replace_detached hu hprepared] at hrun
      obtain ⟨-, rfl⟩ := Prod.mk.inj (Option.some.inj hrun)
      exact .untold
    | some u =>
      have hu' : (s.turn.repeating id).stackAt? v.level = some u := hu
      have hpop : (s.turn.repeating id).pop v.level =
          (s.turn.repeating id).put v.level u.tail := Turn.modifyStack_eq_put hu' List.tail
      rw [replace_popped hprepared (Turn.level?_shape_of_stackAt? hu), hpop] at hrun
      obtain ⟨⟨result, after⟩, hbegin, heq⟩ := Option.map_eq_some_iff.mp hrun
      obtain ⟨rfl, rfl⟩ := Prod.mk.inj heq
      have hpopped : ((s.turn.repeating id).put v.level u.tail).stackAt? v.level = some u.tail :=
        Turn.stackAt?_put hu' _
      obtain ⟨-, hfails⟩ := pushAndBegin_additive hprepared hkind hadditive hpopped hbegin
      have hundone := (hfails e rfl).restack s.turn.stack
      have hlength : (Stack.bare u).tail.length = u.tail.length := by
        rw [List.length_tail, Stack.length_bare, List.length_tail]
      rw [hlength]
      change Undone _ v d options _ e ((s.turn.active? v.level).elim after fun f =>
        { after with turn := restore v.level u.tail.length f after.turn })
      rw [restore_replaced hu (hfails e rfl).stack]
      exact hundone
  · rw [replace_of_unprepared hunprepared] at hrun
    obtain ⟨he, rfl⟩ := Prod.mk.inj (Option.some.inj hrun)
    obtain rfl := Except.error.inj he
    exact .inl ⟨hunprepared, rfl⟩

/-- Whatever a context's level and whatever runs, with an id that means no command and whose
dialog starts others only over its own frame and inside it: when beginning it fails, all
stacks are as they were, at every level, with the memories, locations and hosted stacks of
all frames. Either the id or a binding was refused and nothing has changed, or what the hook
left is there but for the stacks. When a replacement by it fails, the same holds, with the id
written down as the one to repeat just when it and its bindings were good. -/
theorem failed_begin_undone (h : Starts v id) (fuel : Nat) (options : Option Json)
    (s s' : Session) (e : Fault) :
    (begin (call fuel) v id options s = some (.error e, s') →
      s'.turn.stack = s.turn.stack ∧
      ((Unprepared v s.turn id e ∧ s' = s) ∨
        ∃ d inputs, Prepared v s.turn id d inputs ∧
          Undone (call fuel) v d options s e s')) ∧
    (replace (call fuel) v id options s = some (.error e, s') →
      s'.turn.stack = s.turn.stack ∧
      ((Unprepared v s.turn id e ∧ s' = s) ∨
        ∃ d inputs, Prepared v s.turn id d inputs ∧
          Undone (call fuel) v d options { s with turn := s.turn.repeating id } e s')) := by
  constructor
  · intro hrun
    have hcases := begin_fails h hrun
    refine ⟨?_, hcases⟩
    rcases hcases with ⟨-, rfl⟩ | ⟨d, inputs, -, hundone⟩
    · rfl
    · exact hundone.stack
  · intro hrun
    have hcases := replace_fails h hrun
    refine ⟨?_, hcases⟩
    rcases hcases with ⟨-, rfl⟩ | ⟨d, inputs, -, hundone⟩
    · rfl
    · exact hundone.stack

/-! ## Begins inside begins -/

theorem interpret_of_call {hook : Hook} {answer : Except Fault hook.Reply}
    (h : call fuel v d hook s = some (answer, s')) :
    ∃ n after, interpret (call n) n d v (d.program hook) { s with journal := [] } =
      some (answer, after) ∧ s'.turn = after.turn := by
  cases fuel with
  | zero => cases h
  | succ n =>
    obtain ⟨⟨result, after⟩, hrun, heq⟩ := Option.map_eq_some_iff.mp h
    obtain ⟨rfl, rfl⟩ := Prod.mk.inj heq
    exact ⟨n, after, hrun, rfl⟩

end Engine

namespace Dialog
open Engine
variable {v : View} {d : Dialog}

/-- A hook that asks nothing of the engine starts nothing. -/
theorem additive_of_done (h : ∀ options, ∃ outcome, d.onBegin options = .done outcome) :
    d.Additive v := by
  intro fuel options s f rest outcome s' hfresh hcall
  obtain ⟨result, hresult⟩ := h options
  obtain ⟨n, after, hrun, hturn⟩ := interpret_of_call hcall
  rw [program, hresult, interpret] at hrun
  obtain ⟨-, rfl⟩ := Prod.mk.inj (Option.some.inj hrun)
  rw [hturn]
  exact ⟨[f], (Stack.put_self hfresh.stack).symm⟩

/-- A hook that begins another dialog over its frame, whatever comes of that. -/
theorem additive_of_begin {id : String} {next : TurnResult → Except Fault TurnResult}
    (hid : Starts v id)
    (h : ∀ options, d.onBegin options = Program.begin id >>= fun r => .done (next r)) :
    d.Additive v := by
  intro fuel options s f rest outcome s' hfresh hcall
  obtain ⟨n, after, hrun, hturn⟩ := interpret_of_call hcall
  rw [program, h, interpret_bind, Program.begin, interpret_run] at hrun
  have hbegin : ∃ result, begin (call n) v id none { s with journal := [] } =
      some (result, after) := by
    rcases Eval.bind_cases hrun with ⟨e, hfails, -⟩ | ⟨r, begun, hbegins, hdone⟩
    · exact ⟨.error e, hfails⟩
    · obtain ⟨-, rfl⟩ := Prod.mk.inj (Option.some.inj hdone)
      exact ⟨.ok r, hbegins⟩
  obtain ⟨result, hbegin⟩ := hbegin
  obtain ⟨more, hmore⟩ := begin_additive (s := { s with journal := [] }) hid hfresh.stack hbegin
  rw [hturn]
  exact ⟨more ++ [f], by simpa using hmore⟩

/-- A dialog that has begun without a fault is not over at once. -/
def Lasting (v : View) (d : Dialog) : Prop :=
  ∀ ⦃fuel options s f rest r s'⦄, d.Fresh v s.turn f rest →
    Engine.call fuel v d (.begin options) s = some (.ok r, s') →
    r.status = .waiting ∨ r.status = .cancelled

end Dialog

namespace Engine
variable {fuel : Nat} {v : View} {s s' : Session} {id : String} {options : Option Json}
  {r : TurnResult}

theorem begin_lasting (h : Starts v id) (hlasting : ∀ d, v.find? id = some d → d.Lasting v)
    (hrun : begin (call fuel) v id options s = some (.ok r, s')) :
    r.status = .waiting ∨ r.status = .cancelled := by
  rcases prepared_or v s.turn id with ⟨d, inputs, hprepared⟩ | ⟨e, hunprepared⟩
  · have hd := find?_of_lookUp hprepared.found
    cases hu : s.turn.stackAt? v.level with
    | none =>
      rw [begin_detached hu hprepared] at hrun
      cases (Prod.mk.inj (Option.some.inj hrun)).1
    | some u =>
      rw [begin_of_prepared hprepared] at hrun
      rcases pushAndBegin_cases hprepared (h d hd).1 hu hrun with
        ⟨e, he, -⟩ | ⟨f, after, -, hfresh, hcall, -⟩
      · cases he
      · exact hlasting d hd hfresh hcall
  · rw [begin_of_unprepared hunprepared] at hrun
    cases (Prod.mk.inj (Option.some.inj hrun)).1

end Engine

namespace Component
open Engine
variable {v : View} {c : Component} (h : Starts (v.enter c.dialogs) c.initial)
  (hlasting : ∀ d, (v.enter c.dialogs).find? c.initial = some d → d.Lasting (v.enter c.dialogs))
include h hlasting

/-- A component begins its initial dialog inside its frame and does no more than to pass on
what that answers. -/
theorem call_begin {fuel : Nat} {options : Option Json} {s s' : Session} {f : Frame}
    {rest : Stack} {outcome : Except Fault TurnResult} (hfresh : c.dialog.Fresh v s.turn f rest)
    (hcall : call fuel v c.dialog (.begin options) s = some (outcome, s')) :
    (∃ more, s'.turn.stack =
      Stack.put v.level ({ f with children := more } :: rest) s.turn.stack) ∧
    ∀ r, outcome = .ok r → r.status = .waiting ∨ r.status = .cancelled := by
  obtain ⟨n, after, hrun, hturn⟩ := interpret_of_call hcall
  have hprogram : c.dialog.program (.begin options) =
      hosted (Program.begin c.initial options) >>= settle := rfl
  have hactive : s.turn.active? v.level = some f := Turn.active?_of_stackAt? hfresh.stack
  have hchild : v.child? ({ s with journal := [] } : Session).turn =
      some (v.enter c.dialogs) := by
    simp [View.child?, hactive, hfresh.dialog, dialog]
  have hinner : s.turn.stackAt? (v.enter c.dialogs).level = some [] :=
    hfresh.hosts ▸ Stack.level?_succ hfresh.stack
  have hleaves {result : Except Fault TurnResult} {begun : Session}
      (hbegin : Engine.begin (call n) (v.enter c.dialogs) c.initial options
        { s with journal := [] } = some (result, begun)) : ∃ more, begun.turn.stack =
        Stack.put v.level ({ f with children := more } :: rest) s.turn.stack := by
    obtain ⟨more, hmore⟩ := begin_additive (s := { s with journal := [] }) h hinner hbegin
    rw [List.append_nil, View.level_enter, Stack.put_succ hfresh.stack] at hmore
    exact ⟨more, hmore⟩
  rw [hprogram, interpret_bind] at hrun
  rw [hturn]
  rcases Eval.bind_cases hrun with ⟨e, hfails, rfl⟩ | ⟨r, begun, hbegins, hsettles⟩
  · rw [interpret_hosted hchild, Program.begin, interpret_run] at hfails
    refine ⟨hleaves hfails, ?_⟩
    rintro r ⟨⟩
  · rw [interpret_hosted hchild, Program.begin, interpret_run] at hbegins
    have hstays := begin_lasting h hlasting hbegins
    have hsettle : settle r = pure r := by
      rcases hstays with hwaiting | hcancelled
      · simp only [settle, hwaiting]
      · simp only [settle, hcancelled]
    rw [hsettle] at hsettles
    obtain ⟨rfl, rfl⟩ := Prod.mk.inj (Option.some.inj hsettles)
    refine ⟨hleaves hbegins, ?_⟩
    rintro _ ⟨⟩
    exact hstays

/-- A component starts others only inside its frame, as the dialogs that it begins there do,
and lasts as they do. So components in components do, however deep they go. -/
theorem additive : c.dialog.Additive v ∧ c.dialog.Lasting v := by
  constructor
  · intro fuel options s f rest outcome s' hfresh hcall
    obtain ⟨⟨more, hmore⟩, -⟩ := call_begin h hlasting hfresh hcall
    exact ⟨[{ f with children := more }], hmore⟩
  · intro fuel options s f rest r s' hfresh hcall
    exact (call_begin h hlasting hfresh hcall).2 r rfl

end Component

/-! ## A draft without its page -/

/-- Begins a page over itself and finds it wanting. -/
def Dialog.draft : Dialog where
  id := "draft"
  onBegin _ := do
    let _ ← Program.begin "page"
    Program.fail (.collaborator "wanting")

def Component.folder : Component where
  id := "folder"
  initial := "draft"
  dialogs := (Table.empty.insert "draft" .draft).insert "page" (.patient "page")

def Component.cabinet : Component where
  id := "cabinet"
  initial := "folder"
  dialogs := Table.empty.insert "folder" Component.folder.dialog

def View.office : View where
  own := (Table.empty.insert "base" (.patient "base")).insert "cabinet" Component.cabinet.dialog

namespace Engine
variable {v : View} {id : String} {d : Dialog}

theorem starts_of_find? (hd : v.find? id = some d) (hkind : d.kind ≠ .command)
    (hadditive : d.Additive v) : Starts v id := by
  intro d' hd'
  rw [hd] at hd'
  obtain rfl := Option.some.inj hd'
  exact ⟨hkind, hadditive⟩

/-- A draft always fails. -/
theorem draft_lasting (v : View) : Dialog.draft.Lasting v := by
  intro fuel options s f rest r s' hfresh hcall
  obtain ⟨n, after, hrun, -⟩ := interpret_of_call hcall
  have hprogram : Dialog.draft.program (.begin options) =
      Program.begin "page" >>= fun _ => .done (.error (.collaborator "wanting")) := rfl
  rw [hprogram, interpret_bind] at hrun
  rcases Eval.bind_cases hrun with ⟨e, -, he⟩ | ⟨a, begun, -, hdone⟩
  · cases he
  · cases (Prod.mk.inj (Option.some.inj hdone)).1

/-- Whatever is kept in the office, a cabinet starts others only inside its frame. -/
theorem cabinet_starts : Starts .office "cabinet" := by
  let drawer : View := View.office.enter Component.cabinet.dialogs
  let inside : View := drawer.enter Component.folder.dialogs
  have hpage : Starts inside "page" :=
    starts_of_find? rfl Kind.noConfusion (Dialog.additive_of_done fun _ => ⟨_, rfl⟩)
  have hdraft : Starts inside "draft" :=
    starts_of_find? rfl Kind.noConfusion (Dialog.additive_of_begin hpage fun _ => rfl)
  have hfolder : Component.folder.dialog.Additive drawer ∧
      Component.folder.dialog.Lasting drawer := by
    refine Component.additive hdraft fun d hd => ?_
    obtain rfl : Dialog.draft = d := Option.some.inj hd
    exact draft_lasting _
  have hcabinet : Component.cabinet.dialog.Additive .office ∧
      Component.cabinet.dialog.Lasting .office := by
    refine Component.additive (starts_of_find? rfl Kind.noConfusion hfolder.1) fun d hd => ?_
    obtain rfl : Component.folder.dialog = d := Option.some.inj hd
    exact hfolder.2
  exact starts_of_find? rfl Kind.noConfusion hcabinet.1

/-- What does not succeed fails. -/
theorem exists_failure {x : Eval TurnResult} {s : Session}
    (h : (x s).map (fun r => r.1.isOk) = some false) :
    ∃ e s', x s = some (.error e, s') := by
  obtain ⟨⟨outcome, s'⟩, hx, hfails⟩ := Option.map_eq_some_iff.mp h
  cases outcome with
  | ok r => cases hfails
  | error e => exact ⟨e, s', hx⟩

/-- A cabinet with a folder with a draft is begun over a base dialog, and in its place. The
draft fails with a page over it, three levels in, and the base is all there is, as before. -/
theorem failed_begin_undone_cabinet :
    let s : Session := { turn := { activity := .message "c" "go", stack := [.owning "base"] } }
    (∃ e s', begin (call 5) .office "cabinet" none s = some (.error e, s') ∧
      s'.turn.stack = [.owning "base"]) ∧
    ∃ e s', replace (call 5) .office "cabinet" none s = some (.error e, s') ∧
      s'.turn.stack = [.owning "base"] := by
  intro s
  have hbegin : (begin (call 5) .office "cabinet" none s).map (fun r => r.1.isOk) =
      some false := by decide +kernel
  have hreplace : (replace (call 5) .office "cabinet" none s).map (fun r => r.1.isOk) =
      some false := by decide +kernel
  obtain ⟨e, s₁, hs₁⟩ := exists_failure hbegin
  obtain ⟨e', s₂, hs₂⟩ := exists_failure hreplace
  obtain ⟨hundone, -⟩ := failed_begin_undone cabinet_starts 5 none s s₁ e
  obtain ⟨-, hundone'⟩ := failed_begin_undone cabinet_starts 5 none s s₂ e'
  exact ⟨⟨e, s₁, hs₁, (hundone hs₁).1⟩, e', s₂, hs₂, (hundone' hs₂).1⟩

end Engine
end Colloquy
