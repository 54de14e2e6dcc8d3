import Colloquy.Proofs.Nesting.Layers
import Colloquy.Proofs.Persistence

/-!
# Components are transparent

A prompt, or a waterfall whose steps keep to their context, may be wrapped in any number of
components: over any number of turns the results, the failures and the replies stay the
same, and the root stack is empty when it would be without them.
-/
namespace Colloquy

/-- What can be seen of a turn: what came of it, the replies, and whether nothing is running
after it. -/
structure Exchange where
  outcome : Except Fault TurnResult
  replies : List Activity
  idle : Bool

/-- Nothing is kept as running. -/
def Snapshot.idle (s : Snapshot) : Bool := (s.stack?.map List.isEmpty).getD false

/-- What a later turn asks of the root context. -/
inductive Ask where
  | advance
  | reprompt

def Ask.perform (caller : Caller) (v : View) : Ask → Eval TurnResult
  | .advance => Engine.advance caller v
  | .reprompt => Engine.reprompt caller v

/-- Turns with one root context: how it is begun and what the later turns ask. Of a turn that
fails nothing is kept if such turns are dropped. -/
structure Talk where
  settings : Object := .empty
  drops : Bool := true
  options : Option Json := none
  first : Activity
  later : List (Activity × Ask) := []

namespace Talk

/-- One turn over what is kept: what is seen of it, and what is kept then. -/
def exchange (d : Talk) (x : Eval TurnResult) (a : Activity) (kept : Snapshot) :
    Option (Exchange × Snapshot) :=
  match Turn.start a kept d.settings with
  | .error e => some ({ outcome := .error e, replies := [], idle := kept.idle }, kept)
  | .ok t => (x { turn := t }).map fun (outcome, s) =>
    let kept := if d.drops ∧ ¬ outcome.isOk then kept else s.turn.snapshot
    ({ outcome, replies := s.turn.outbox, idle := kept.idle }, kept)

/-- The turns after the first one. -/
def goOn (d : Talk) (caller : Caller) (v : View) :
    List (Activity × Ask) → Snapshot → Option (List Exchange)
  | [], _ => some []
  | (a, ask) :: later, kept => do
    let (seen, kept) ← d.exchange (ask.perform caller v) a kept
    return seen :: (← goOn d caller v later kept)

/-- The turns of a talk with the dialog that an id means at the root. -/
def exchanges (d : Talk) (fuel : Nat) (set : DialogSet) (id : String) (kept : Snapshot) :
    Option (List Exchange) := do
  let caller := Engine.call fuel
  let root := Engine.root set
  let (seen, kept) ← d.exchange (Engine.begin caller root id d.options) d.first kept
  return seen :: (← d.goOn caller root d.later kept)

end Talk

/-- A prompt, or a waterfall whose steps close within the context of the set. -/
inductive Dialog.Wrappable (set : DialogSet) : Dialog → Prop
  | prompt (p : Prompt) : Wrappable set p.dialog
  | waterfall (w : Waterfall) (hsteps : ∀ step ∈ w.steps, ∀ input, (step input).Closing set) :
      Wrappable set w.dialog

theorem Dialog.Wrappable.selfContained {set : DialogSet} {d : Dialog} (h : d.Wrappable set) :
    d.SelfContained set := by
  cases h with
  | prompt p => exact p.selfContained
  | waterfall w hsteps => exact w.selfContained hsteps

/-- Snapshots that differ in their stacks only, one inside the components of the other. -/
structure Snapshot.Paired (set : DialogSet) (main : Dialog) (layers : List Component)
    (name : String) (kept kept' : Snapshot) : Prop where
  user : kept'.user = kept.user
  conversation : kept'.conversation.erase Turn.stackKey = kept.conversation.erase Turn.stackKey
  stacked : ∃ s u, kept.stack? = some s ∧ kept'.stack? = some u ∧ s.Held (set.Casts main) ∧
    Component.Around layers name s u

theorem Snapshot.Paired.idle_eq {set : DialogSet} {main : Dialog} {layers : List Component}
    {name : String} {kept kept' : Snapshot} (h : Paired set main layers name kept kept') :
    kept'.idle = kept.idle := by
  obtain ⟨s, u, hs, hu, -, haround⟩ := h.stacked
  simp only [idle, hs, hu, Option.map_some, Option.getD_some]
  rw [Bool.eq_iff_iff, List.isEmpty_iff, List.isEmpty_iff, haround.nil_iff]

/-- Two turns are seen the same and keep paired snapshots, or neither has an answer. -/
def SeenAlike (set : DialogSet) (main : Dialog) (layers : List Component) (name : String)
    (x y : Option (Exchange × Snapshot)) : Prop :=
  (x = none ∧ y = none) ∨ ∃ seen kept kept', x = some (seen, kept) ∧ y = some (seen, kept') ∧
    Snapshot.Paired set main layers name kept kept'

/-- What goes on the same from paired snapshots comes to the same. -/
theorem SeenAlike.bind_eq {set : DialogSet} {main : Dialog} {layers : List Component}
    {name : String} {x y : Option (Exchange × Snapshot)} {f g : Exchange × Snapshot → Option α}
    (h : SeenAlike set main layers name x y)
    (hnext : ∀ seen kept kept', Snapshot.Paired set main layers name kept kept' →
      g (seen, kept') = f (seen, kept)) : y >>= g = x >>= f := by
  rcases h with ⟨rfl, rfl⟩ | ⟨seen, kept, kept', rfl, rfl, hpaired⟩
  · rfl
  · exact hnext seen kept kept' hpaired

namespace Engine
open Eval

variable {set : DialogSet} {id : String} {main : Dialog} {layers : List Component} {name : String}
  {d : Talk} {kept kept' : Snapshot}

/-- What an operation of the root contexts leaves: the same inside components, unless a
failure left nothing where outputs cannot be delivered. -/
def Alongside (set : DialogSet) (main : Dialog) (layers : List Component) (name : String)
    (outcome : Except Fault TurnResult) (t t' : Turn) : Prop :=
  t.Tidy set main ∧ ∃ u, t' = t.running u ∧
    ((∃ r, outcome = .ok r) ∨ main.Delivers → Component.Around layers name t.stack u)

/-! ## One turn -/

/-- From paired snapshots turns start that differ in their stacks only. -/
theorem exists_start (h : Snapshot.Paired set main layers name kept kept') (a : Activity)
    (settings : Object) : ∃ t u, Turn.start a kept settings = .ok t ∧
      Turn.start a kept' settings = .ok (t.running u) ∧ kept.stack? = some t.stack ∧
      t.Tidy set main ∧ Component.Around layers name t.stack u := by
  obtain ⟨s, u, hs, hu, hheld, haround⟩ := h.stacked
  refine ⟨_, u, Turn.start_of_stack? hs a settings, ?_, hs, hheld, haround⟩
  rw [Turn.start_of_stack? hu a settings, h.user, h.conversation]
  rfl

theorem paired_snapshot {t : Turn} {u : Stack} (htidy : t.Tidy set main)
    (haround : Component.Around layers name t.stack u) :
    Snapshot.Paired set main layers name t.snapshot (t.running u).snapshot where
  user := rfl
  conversation := by simp [Turn.running]
  stacked := ⟨t.stack, u, t.snapshot_stack?, Turn.snapshot_stack? _, htidy, haround⟩

theorem exchange_seenAlike {x y : Eval TurnResult} {P : Turn → Prop}
    (h : Lockstep (Within [] layers name P) x y (Alongside set main layers name))
    (hdrops : d.drops ∨ main.Delivers) (hpaired : Snapshot.Paired set main layers name kept kept')
    (hP : ∀ t, kept.stack? = some t.stack → t.Tidy set main → P t) (a : Activity) :
    SeenAlike set main layers name (d.exchange x a kept) (d.exchange y a kept') := by
  obtain ⟨t, u, hstart, hstart', hstack, htidy, haround⟩ := exists_start hpaired a d.settings
  have hwithin : Within [] layers name P t (t.running u) := ⟨hP t hstack htidy, u, haround, rfl⟩
  simp only [Talk.exchange, hstart, hstart']
  rcases @h { turn := t } { turn := t.running u } hwithin with
    ⟨hx, hy⟩ | ⟨outcome, after, after', hx, hy, htidy', w, hw, hkept⟩
  · rw [hx, hy]
    exact .inl ⟨rfl, rfl⟩
  · rw [hx, hy]
    have hnext : Snapshot.Paired set main layers name
        (if d.drops ∧ ¬ outcome.isOk then kept else after.turn.snapshot)
        (if d.drops ∧ ¬ outcome.isOk then kept' else after'.turn.snapshot) := by
      split
      · exact hpaired
      · next hkeeps =>
        rw [hw]
        refine paired_snapshot htidy' (hkept ?_)
        cases outcome with
        | ok r => exact .inl ⟨r, rfl⟩
        | error e =>
          exact .inr (hdrops.resolve_left fun hdrop => hkeeps ⟨hdrop, Bool.false_ne_true⟩)
    have hreplies : after'.turn.outbox = after.turn.outbox := by rw [hw]; rfl
    refine .inr ⟨_, _, _, rfl, ?_, hnext⟩
    simp only [Option.map_some, hnext.idle_eq, hreplies]

/-- Over an empty root stack every ask is answered at once. -/
theorem perform_idle {caller : Caller} (ask : Ask) {s : Session} (h : s.turn.stack = []) :
    ask.perform caller (root set) s = some (.ok .empty, s) := by
  have hnone : s.turn.active? (root set).level = none := active?_root h
  have hbubble : ({ name := Event.repromptDialog } : Event).bubble = false := rfl
  cases ask with
  | advance =>
    simp only [Ask.perform, advance, bind_apply, turn, hnone]
    rfl
  | reprompt =>
    have hoffered : offer caller { name := Event.repromptDialog } (root set) (pure false) s =
        some (.ok false, s) := by
      simp only [offer, bind_apply, turn, hnone]
      rfl
    simp only [Ask.perform, reprompt, emit_eq_offer _ _ hbubble, bind_apply, hoffered,
      Bool.false_eq_true, if_false, turn, hnone]
    rfl

/-- Later turns ask the same of the root contexts. -/
theorem lockstep_ask (hmain : main.SelfContained set) {outermost : DialogSet}
    (hnesting : Component.Nesting set id layers outermost name) (fuel : Nat) (ask : Ask) :
    Lockstep (Within [] layers name (Turn.Tidy set main))
      (ask.perform (call (fuel + 1)) (root set))
      (ask.perform (call (fuel + layers.length + 1)) (root outermost))
      (Alongside set main layers name) := by
  intro s s' hs
  obtain ⟨htidy, u, haround, hs'⟩ := hs
  by_cases hnil : s.turn.stack = []
  · -- Nothing is running on either side, and both say so.
    have hempty : s'.turn.stack = [] := by
      rw [hs', Turn.inside_nil, Turn.stack_running]
      exact haround.nil_iff.mp hnil
    exact .inr ⟨_, s, s', perform_idle ask hnil, perform_idle ask hempty, htidy, u, hs',
      fun _ => haround⟩
  · have hready : Within [] layers name (Turn.Ready set main) s.turn s'.turn :=
      ⟨⟨htidy, hnil⟩, u, haround, hs'⟩
    cases ask with
    | advance =>
      refine lockstep_post (lockstep_advance_within fuel hmain hnesting rfl) ?_ hready
      rintro outcome t t' ⟨hsettled, w, ht', hkept⟩
      refine ⟨hsettled.1, w, ht', fun hsure => hkept ?_⟩
      cases outcome with
      | ok r => exact .inl ⟨r, rfl⟩
      | error e =>
        rcases hsure with ⟨r, hr⟩ | hdelivers
        · cases hr
        · exact .inr (hsettled.2 hdelivers)
    | reprompt =>
      refine lockstep_post (lockstep_reprompt_within fuel hmain hnesting rfl) ?_ hready
      rintro outcome t t' ⟨hpost, w, haround', ht'⟩
      exact ⟨hpost.1.1, w, ht', fun _ => haround'⟩

/-! ## All turns -/

theorem goOn_eq (hmain : main.SelfContained set) {outermost : DialogSet}
    (hnesting : Component.Nesting set id layers outermost name)
    (hdrops : d.drops ∨ main.Delivers) (hpaired : Snapshot.Paired set main layers name kept kept')
    (fuel : Nat) (later : List (Activity × Ask)) :
    d.goOn (call (fuel + layers.length + 1)) (root outermost) later kept' =
      d.goOn (call (fuel + 1)) (root set) later kept := by
  induction later generalizing kept kept' with
  | nil => rfl
  | cons turn later ih =>
    obtain ⟨a, ask⟩ := turn
    have hseen := exchange_seenAlike (lockstep_ask hmain hnesting fuel ask) hdrops hpaired
      (fun _ _ htidy => htidy) a
    exact hseen.bind_eq fun seen next next' h => by simp only [ih h]

end Engine

/-- A talk with a prompt or a waterfall that is wrapped in components is the talk with the
dialog itself at the root: turn for turn the same comes of it, the same is replied, and
either both root stacks are empty or neither is. Failed turns are dropped, or else the
dialog's output can always be delivered. The layers take one unit of fuel each. -/
theorem Talk.exchanges_nested {set : DialogSet} {id : String} {main : Dialog}
    (hmain : main.Wrappable set) (hid : set.find? id = some main) {layers : List Component}
    {outermost : DialogSet} {name : String}
    (hnesting : Component.Nesting set id layers outermost name) (d : Talk)
    (hdrops : d.drops ∨ main.Delivers) {kept : Snapshot} (hkept : kept.stack? = some [])
    (fuel : Nat) :
    d.exchanges (fuel + layers.length + 1) outermost name kept =
      d.exchanges (fuel + 1) set id kept := by
  have hself := hmain.selfContained
  have hpaired : Snapshot.Paired set main layers name kept kept :=
    ⟨rfl, rfl, [], [], hkept, hkept, Stack.held_nil, Component.around_nil layers name⟩
  have hbegin : Eval.Lockstep (Within [] layers name fun t => t.stack = [])
      (Engine.begin (Engine.call (fuel + 1)) (Engine.root set) id d.options)
      (Engine.begin (Engine.call (fuel + layers.length + 1)) (Engine.root outermost) name d.options)
      (Engine.Alongside set main layers name) := by
    have hlevel : (Engine.root outermost).level = ([] : List Frame).length := rfl
    have hrun := Engine.lockstep_begin_within fuel hself ⟨main, hid, .inl rfl⟩ hnesting hlevel
      d.options
    refine Eval.lockstep_pre (Eval.lockstep_post hrun ?_) ?_
    · rintro outcome t t' ⟨hbegun, u, haround, ht'⟩
      exact ⟨hbegun.1, u, ht', fun _ => haround⟩
    · rintro t t' ⟨hnil, u, haround, ht'⟩
      have hu : u = t.stack := by rw [haround.nil_iff.mp hnil, hnil]
      refine ⟨hnil, ?_⟩
      rw [ht', hu]
      rfl
  have hfirst := Engine.exchange_seenAlike hbegin hdrops hpaired
    (fun t ht _ => Option.some.inj (ht.symm.trans hkept)) d.first
  exact hfirst.bind_eq fun seen next next' h => by
    simp only [Engine.goOn_eq hself hnesting hdrops h]

/-! ## An order in a parcel in a crate -/

/-- The set of one dialog, under its own id. -/
def DialogSet.only (d : Dialog) : DialogSet := Table.empty.insert d.id d

def Prompt.colour : Prompt where
  id := "colour"
  recognize := .text

/-- Asks for a colour and ends with it. -/
def Waterfall.order : Waterfall where
  id := "order"
  steps :=
    [fun _ => Program.prompt "colour" { prompt := "Which colour?" },
      fun input => Program.finish input.result]

def Component.parcel : Component where
  id := "parcel"
  initial := "order"
  dialogs := (DialogSet.only Waterfall.order.dialog).insert "colour" Prompt.colour.dialog

def Component.crate : Component where
  id := "crate"
  initial := "parcel"
  dialogs := .only Component.parcel.dialog

/-- A blank answer, a question asked again, and an answer. -/
def Talk.ordering : Talk where
  first := .message "c" "hello"
  later :=
    [(.message "c" " ", .advance), (.message "c" "again", .reprompt),
      (.message "c" "blue", .advance)]

theorem Waterfall.wrappable_order : order.dialog.Wrappable Component.parcel.dialogs := by
  refine .waterfall order fun step hstep input => ?_
  obtain rfl | rfl : step = _ ∨ step = _ := by simpa [order] using hstep
  · exact Program.closing_prompt (p := .colour) rfl _
  · exact .finish

/-- An order in a parcel in a crate goes as it does without them, and is over after the
fourth turn. -/
theorem Talk.exchanges_nested_crate :
    ordering.exchanges 8 (.only Component.crate.dialog) "crate" {} =
      ordering.exchanges 6 Component.parcel.dialogs "order" {} ∧
    (ordering.exchanges 6 Component.parcel.dialogs "order" {}).map (·.map Exchange.idle) =
      some [false, false, false, true] := by
  refine ⟨?_, by decide +kernel⟩
  have hnesting : Component.Nesting Component.parcel.dialogs "order" [.crate, .parcel]
      (.only Component.crate.dialog) "crate" := ⟨rfl, rfl, rfl, rfl, rfl, rfl⟩
  exact exchanges_nested Waterfall.wrappable_order rfl hnesting ordering (.inl rfl) rfl 5

/-! ## What a component does not hide -/

/-- A component around one dialog. -/
def Component.around (d : Dialog) : Component where
  id := "box"
  initial := d.id
  dialogs := .only d

/-- Its step waits, once it has said something in the enclosing context, if there is one. -/
def Waterfall.peek : Waterfall where
  id := "peek"
  steps := [fun _ => .within .parent (Program.sendText "seen") fun _ => pure .waiting]

/-- Its second step ends it, with an output that cannot be written. -/
def Waterfall.form : Waterfall where
  id := "form"
  steps := [fun _ => pure .waiting, fun _ => Program.finish (some (.nat 1))]
  output := some "settings.answer"

/-- A step that reaches out of its context tells whether it is inside a component. So does a
failed turn that is kept: when the last result cannot be delivered, the dialog is gone, but
the component that would have ended with it is not. -/
theorem Talk.exchanges_differ :
    let talk : Talk := { first := .message "c" "hello" }
    let replies (set : DialogSet) (id : String) :=
      (talk.exchanges 6 set id {}).map (·.map fun seen => seen.replies.map Activity.text)
    let kept : Talk := { talk with drops := false, later := [(.message "c" "1", .advance)] }
    let idle (set : DialogSet) (id : String) :=
      (kept.exchanges 6 set id {}).map (·.map Exchange.idle)
    replies (.only Waterfall.peek.dialog) "peek" = some [[]] ∧
    replies (.only (Component.around Waterfall.peek.dialog).dialog) "box" =
      some [[some "seen"]] ∧
    idle (.only Waterfall.form.dialog) "form" = some [false, true] ∧
    idle (.only (Component.around Waterfall.form.dialog).dialog) "box" = some [false, false] := by
  decide +kernel

end Colloquy
