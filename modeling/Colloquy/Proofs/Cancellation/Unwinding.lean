import Colloquy.Proofs.Atomicity
import Colloquy.Proofs.Cancellation.Notices
import Colloquy.Proofs.Library.Turns

/-!
# A cancellation from the inside

A turn goes on from the root inward: each component waits for the one inside it. When the
innermost dialog cancels everything, the stacks of all these components are gone before they
hear of it. They take the result as theirs and do nothing else, and the turn is over.
-/
namespace Colloquy

/-- The event that an activity is offered as. -/
def Event.received (activity : Json) : Event :=
  { name := Event.activityReceived, value := some activity, bubble := true }

namespace View

theorem leafUnder_bare (v : View) (f : Frame) : v.leafUnder f.bare = v.leafUnder f := by
  fun_induction leafUnder v f with
  | case1 v id memory shared => rfl
  | case2 v id memory shared g rest hnone => simp [Frame.bare, leafUnder, hnone]
  | case3 v id memory shared g rest hosted hset ih => simp [Frame.bare, leafUnder, hset, ih]

/-- Where the innermost context is does not depend on memories. -/
theorem leaf_of_shape {t t' : Turn} (h : t'.shape = t.shape) (v : View) : v.leaf t' = v.leaf t := by
  have hbare (t : Turn) : v.leaf t =
      (((t.active? v.level).map Frame.bare).map v.leafUnder).getD v := by
    cases hf : t.active? v.level <;> simp [leaf, hf, leafUnder_bare]
  rw [hbare, hbare, active?_bare, active?_bare, h]

theorem atLevel_enter (v : View) (hosted : DialogSet) {level : Nat} (h : level ≤ v.level) :
    (v.enter hosted).atLevel level = v.atLevel level := by
  have hskip : v.level + 1 - level = (v.level - level) + 1 := by omega
  have hsets : (v.enter hosted).sets = hosted :: v.sets := rfl
  refine eq_of_sets ?_
  rw [sets_atLevel, sets_atLevel, level_enter, hskip, hsets, List.drop_succ_cons]

end View

/-! ## On the way in -/

/-- The view is reached from the root, where all frames are registered, through the active
frames of dialogs that host others. -/
inductive Entered (P : View → Dialog → Prop) (root : View) (shape : Stack) : View → Prop
  | root (hlevel : root.level = 0) (hframes : ∀ f ∈ shape, Registered P root f) :
      Entered P root shape root
  | enter {v : View} {f : Frame} {rest : Stack} {d : Dialog} {hosted : DialogSet}
      (hv : Entered P root shape v) (hs : Stack.level? v.level shape = some (f :: rest))
      (hd : v.find? f.id = some d) (hset : d.children = some hosted) :
      Entered P root shape (v.enter hosted)

namespace Entered
variable {P : View → Dialog → Prop} {root v : View} {shape u : Stack}

/-- All frames at the level of the view are registered. -/
theorem frames (h : Entered P root shape v) (hu : Stack.level? v.level shape = some u) :
    ∀ f ∈ u, Registered P v f := by
  induction h generalizing u with
  | root hlevel hframes =>
    rw [hlevel] at hu
    obtain rfl := Option.some.inj hu
    exact hframes
  | @enter v f rest d hosted hv hs hd hset ih =>
    rw [View.level_enter, Stack.level?_succ hs] at hu
    obtain rfl := Option.some.inj hu
    cases ih hs f List.mem_cons_self with
    | idle _ _ hidle =>
      intro g hg
      rw [hidle] at hg
      exact absurd hg List.not_mem_nil
    | hosting hd' _ hset' hframes =>
      rw [hd] at hd'
      obtain rfl := Option.some.inj hd'
      rw [hset] at hset'
      obtain rfl := Option.some.inj hset'
      exact hframes

/-- All frames from the view outward are registered, those around it without what they host. -/
theorem lineup (h : Entered P root shape v) :
    ∀ level g, (level, g) ∈ Stack.lineup v.level shape → Registered P (v.atLevel level) g := by
  induction h with
  | root hlevel hframes =>
    intro level g hg
    rw [hlevel] at hg
    obtain ⟨g, hmem, heq⟩ := List.mem_map.mp hg
    obtain ⟨rfl, rfl⟩ := Prod.mk.inj heq
    rw [← hlevel, View.atLevel_of_suffix (List.suffix_refl _)]
    exact hframes g hmem
  | @enter v f rest d hosted hv hs hd hset ih =>
    intro level g hg
    have hown := Stack.level?_succ hs
    rw [View.level_enter, Stack.lineup_eq_append hown, Stack.lineup_outside hs] at hg
    have hframe := hv.frames hs f List.mem_cons_self
    rcases List.mem_append.mp hg with hinner | houter
    · obtain ⟨g, hmem, heq⟩ := List.mem_map.mp hinner
      obtain ⟨rfl, rfl⟩ := Prod.mk.inj heq
      have htop : (v.enter hosted).atLevel (v.level + 1) = v.enter hosted :=
        View.atLevel_of_suffix (List.suffix_refl _)
      rw [htop]
      exact (hv.enter hs hd hset).frames hown g hmem
    · rcases List.mem_cons.mp houter with hhost | hbelow
      · obtain ⟨rfl, rfl⟩ := Prod.mk.inj hhost
        obtain ⟨d', hd', hp⟩ := hframe.dialog
        rw [View.atLevel_enter v hosted (Nat.le_refl _),
          View.atLevel_of_suffix (List.suffix_refl _)]
        exact .idle hd' hp rfl
      · rw [View.atLevel_enter v hosted (Stack.level_le_of_mem_lineup hbelow)]
        refine ih level g ?_
        rw [Stack.lineup_eq_cons hs]
        exact List.mem_cons_of_mem _ hbelow

theorem declined {E : Event → Prop} {event : Event}
    (h : Entered (Dialog.Yielding E) root shape v) (he : E event) :
    ∀ w ∈ v.outward, Engine.Declined event shape w := by
  have hhere {v : View} (hv : Entered (Dialog.Yielding E) root shape v) :
      Engine.Declined event shape v :=
    Engine.declined_of_registered he fun f rest hs => hv.frames hs f List.mem_cons_self
  induction h with
  | root hlevel hframes =>
    obtain ⟨own, outer⟩ := root
    obtain rfl : outer = [] := List.eq_nil_of_length_eq_zero hlevel
    intro w hw
    obtain rfl := List.mem_singleton.mp hw
    exact hhere (.root hlevel hframes)
  | enter hv hs hd hset ih =>
    intro w hw
    rcases List.mem_cons.mp hw with rfl | houter
    · exact hhere (hv.enter hs hd hset)
    · exact ih w houter

theorem descend {w : View} {t : Turn} (h : Entered P root t.shape v) (hw : v.Descends t w) :
    Entered P root t.shape w := by
  obtain ⟨f, hosted, hf, -, hhosts, rfl⟩ := hw
  obtain ⟨d, hd, hset⟩ := Option.bind_eq_some_iff.mp hhosts
  obtain ⟨rest, hu⟩ := Turn.stackAt?_of_active? hf
  have hbare : v.find? f.bare.id = some d := by rw [Frame.bare_id, hd]
  exact h.enter (Turn.level?_shape_of_stackAt? hu) hbare hset

theorem leaf {t : Turn} (h : Entered P root t.shape v) : Entered P root t.shape (v.leaf t) := by
  obtain ⟨hreach, -⟩ := v.leaf_deepest t
  generalize v.leaf t = innermost at hreach
  induction hreach with
  | refl => exact h
  | tail _ hnext ih => exact ih.descend hnext

end Entered

/-- The entry for going on in a turn from a view. Every dialog on the way to the innermost view
is called once, and gives the answer that everything is cancelled. During its call there is only
the call one level in, and at last what happens during the call of the innermost dialog. -/
inductive Inward (t : Turn) (innermost : View) (during : List Entry) : View → Entry → Prop
  | arrived {d : Dialog} (hd : innermost.listener? t = some d) :
      Inward t innermost during innermost
        (.called (.of innermost d t .advance) (.ok .cancelled) during)
  | through {v : View} {d : Dialog} {hosted : DialogSet} {inner : Entry}
      (hd : v.listener? t = some d) (hset : d.children = some hosted)
      (hinner : Inward t innermost during (v.enter hosted) inner) :
      Inward t innermost during v (.called (.of v d t .advance) (.ok .cancelled) [inner])

theorem Inward.notices {t : Turn} {innermost v : View} {during : List Entry} {entry : Entry}
    (h : Inward t innermost during v entry) : Entry.notices [entry] = Entry.notices during := by
  induction h with
  | arrived => rw [Entry.notices_called]; rfl
  | through _ _ _ ih => rw [Entry.notices_called, ih]; rfl

namespace Engine
variable {v root : View} {d : Dialog} {s s' : Session} {f : Frame} {shape : Stack}
  {E : Event → Prop}

/-- A component takes the result of what it hosts as its own if that was cancelled. -/
theorem call_component {fuel : Nat} {inner : View} (hchild : v.child? s.turn = some inner)
    (hgoes : d.onContinue = Component.advance)
    (h : advance (call fuel) inner { s with journal := [] } = some (.ok .cancelled, s')) :
    call (fuel + 1) v d .advance s = some (.ok .cancelled, { s' with journal := s.journal ++
      [.called (.of v d s.turn .advance) (.ok .cancelled) s'.journal] }) := by
  have hrun : interpret (call fuel) fuel d v Component.advance { s with journal := [] } =
      some (.ok .cancelled, s') := by
    simp only [Component.advance, interpret_bind, Eval.bind_apply]
    rw [interpret_hosted (s := { s with journal := [] }) hchild, Program.advance, interpret_run]
    simp only [perform, h]
    rfl
  simp only [call, Eval.bind_apply, Eval.turn, Eval.entered, Dialog.program, hgoes, hrun]
  rfl

/-- A dialog whose continuation comes to a cancellation that nobody handles leaves nothing, and
is not heard of again. -/
theorem call_cancels {w : View} {t : Turn} {name : String} {value : Option Json}
    (hentered : Entered (Dialog.Yielding E) root t.shape w) (he : E { name, value })
    (hd : w.listener? t = some d)
    (hleft : (d.onContinue.stretch w t).left = Program.run (.cancelAll name value)) :
    ∃ (n : Nat) (final : Turn) (notes : List Json) (entries : List Entry), final.shape = [] ∧
      Cancels { name, value } w false (Stack.lineup w.level t.shape) entries [] ∧
      (Entry.notices entries).Perm ((Stack.census 0 t.shape).map .cancelled) ∧
      ∀ fuel ≥ n, ∀ s : Session, s.turn = t → call fuel w d .advance s =
        some (.ok .cancelled, { turn := final, journal := s.journal ++
          [.called (.of w d t .advance) (.ok .cancelled) (notes.map .noted ++ entries)] }) := by
  obtain ⟨f, hf, -⟩ := Option.bind_eq_some_iff.mp hd
  obtain ⟨rest, hu⟩ := Turn.stackAt?_of_active? hf
  have hs := Turn.level?_shape_of_stackAt? hu
  -- what the hook does by itself leaves the frames as they are
  obtain ⟨x, hx⟩ : ∃ x, (d.program .advance).stretch w t = x := ⟨_, rfl⟩
  have hshape : x.turn.shape = t.shape := hx ▸ Program.shape_stretch (d.program .advance) t
  have hcome : x.left = Program.run (.cancelAll name value) := hx ▸ hleft
  rw [← hshape] at hs hentered ⊢
  obtain ⟨n, s', entries, hcancel, hgone, hjournal, hcancels, htold⟩ :=
    cancelAll_tells (s := { turn := x.turn, journal := x.notes.map .noted }) he hs hentered.lineup
  refine ⟨n + 1, s'.turn, x.notes, entries, hgone, hcancels, htold, ?_⟩
  rintro fuel hfuel s rfl
  obtain ⟨fuel, rfl⟩ := Nat.exists_eq_add_one.mpr (Nat.zero_lt_of_lt hfuel)
  have hrun : interpret (call fuel) fuel d w x.left
      { turn := x.turn, journal := x.notes.map .noted } = some (.ok .cancelled, s') := by
    rw [hcome, interpret_run]
    exact hcancel fuel (by omega)
  have hjournal : s'.journal = x.notes.map .noted ++ entries := hjournal
  rw [call_stretch hx, hrun, ← hjournal]
  rfl

/-- What the innermost dialog answers is passed on outward, with nothing else between. -/
theorem advance_inward {w : View} {t final : Turn} {during : List Entry} {n : Nat}
    (hd : w.listener? t = some d)
    (hcall : ∀ fuel ≥ n, ∀ s : Session, s.turn = t → call fuel w d .advance s =
      some (.ok .cancelled, { turn := final, journal := s.journal ++
        [.called (.of w d t .advance) (.ok .cancelled) during] }))
    (hreach : Relation.ReflTransGen (View.Descends t) v w)
    (hentered : Entered (Dialog.Yielding E) root t.shape v) :
    ∃ m entry, Inward t w during v entry ∧ ∀ fuel ≥ m, ∀ s : Session, s.turn = t →
      advance (call fuel) v s =
        some (.ok .cancelled, { turn := final, journal := s.journal ++ [entry] }) := by
  induction hreach using Relation.ReflTransGen.head_induction_on with
  | refl =>
    obtain ⟨f, hf, hfd⟩ := Option.bind_eq_some_iff.mp hd
    refine ⟨n, _, .arrived hd, fun fuel hfuel s hs => ?_⟩
    rw [advance_active (hs ▸ hf) hfd]
    exact hcall fuel hfuel s hs
  | @head v inner hfirst _ ih =>
    obtain ⟨m, entry, hinward, hinner⟩ := ih (hentered.descend hfirst)
    obtain ⟨f, hosted, hf, -, hhosts, rfl⟩ := hfirst
    obtain ⟨c, hc, hset⟩ := Option.bind_eq_some_iff.mp hhosts
    have hlistener : v.listener? t = some c := by rw [View.listener?, hf]; exact hc
    have hgoes : c.onContinue = Component.advance := by
      obtain ⟨rest, hu⟩ := Turn.stackAt?_of_active? hf
      have hframe := hentered.frames (Turn.level?_shape_of_stackAt? hu) f.bare
        List.mem_cons_self
      obtain ⟨c', hc', hyields⟩ := hframe.dialog
      rw [Frame.bare_id, hc] at hc'
      obtain rfl := Option.some.inj hc'
      rcases hyields.close with ⟨hleaf, -⟩ | ⟨-, -, hgoes⟩
      · rw [hset] at hleaf
        cases hleaf
      · exact hgoes
    refine ⟨m + 1, _, .through hlistener hset hinward, ?_⟩
    rintro fuel hfuel s rfl
    obtain ⟨fuel, rfl⟩ := Nat.exists_eq_add_one.mpr (Nat.zero_lt_of_lt hfuel)
    have hchild : v.child? s.turn = some (v.enter hosted) := by
      rw [View.child?, hf]
      simp only [hc, Option.bind_some, hset, Option.map_some]
    rw [advance_active hf hc, call_component hchild hgoes
      (hinner fuel (by omega) { s with journal := [] } rfl)]
    rfl

/-- An event that bubbles goes to all dialogs that are active, on the way out and on the way
back, and when all of them decline it, nothing has happened to the stacks. -/
theorem emit_unhandled {event : Event} (hbubble : event.bubble = true) (he : E event)
    (hentered : Entered (Dialog.Yielding E) root s.turn.shape root)
    (hactive : (s.turn.active? root.level).isSome) :
    ∃ n s' entries,
      (∀ fuel ≥ n, emit (call fuel) root event true s = some (.ok false, s')) ∧
      s'.turn.shape = s.turn.shape ∧ s'.journal = s.journal ++ entries ∧
      Entry.notices entries = [] ∧
      Asked event s.turn.shape
        (Chance.round (View.listeners s.turn (root.leaf s.turn).outward)) false entries := by
  have hdeclined := hentered.leaf.declined he
  have hunheard : Eval.Tells (fun fuel => emit (call fuel) root event true) s false
      s.turn.shape [] := emit_declined hdeclined
  have hreached : (root.origin s.turn true).reached event = (root.leaf s.turn).outward := by
    rw [View.reached, hbubble, if_pos rfl]
    rfl
  have hround : Eval.Settles (fun fuel => emit (call fuel) root event true) s
      (Eval.Offers event (Chance.round (View.listeners s.turn (root.leaf s.turn).outward)) s) := by
    rw [← hreached]
    exact emit_settles_round rfl (fun w hw => (hdeclined w (hreached ▸ hw)).attentive) hactive
  obtain ⟨n, _, s', hemit, rfl, hshape, entries, hjournal, hnone⟩ := hunheard
  obtain ⟨m, _, s₁, hemit', handled, others, rfl, -, hjournal', hasked⟩ := hround
  obtain ⟨hfalse, rfl⟩ := Prod.mk.inj (Eval.settled_unique hemit hemit')
  obtain rfl : entries = others := List.append_cancel_left (hjournal.symm.trans hjournal')
  obtain rfl := Except.ok.inj hfalse
  exact ⟨n, s', entries, hemit, hshape, hjournal, hnone, hasked⟩

end Engine

namespace Host
variable {σ : Type} {h : Host}

/-- However the dialogs leave the turn after they were offered the activity, the dialog comes by
itself to cancel everything with one of the events, and answers what comes of that. -/
def CancelsInside (h : Host) (E : Event → Prop) (a : Activity) (turn : Turn) (d : Dialog) :
    Prop :=
  ∀ fuel s, Engine.emit (Engine.call fuel) h.view (.received a.toJson) true { turn } =
      some (.ok false, s) →
    ∃ name value, E { name, value } ∧
      (d.onContinue.stretch (h.view.leaf turn) s.turn).left =
        Program.run (.cancelAll name value)

/-- A turn whose stack goes on to a result that is not empty is over with it. -/
theorem runStack_goes {fuel : Nat} {activity : Json} {s s₁ s₂ : Session} {r : TurnResult}
    (hdepth : 0 < s.turn.depth 0)
    (hemit : Engine.emit (Engine.call fuel) h.view (.received activity) true s =
      some (.ok false, s₁))
    (hadvance : Engine.advance (Engine.call fuel) h.view s₁ = some (.ok r, s₂))
    (hr : r.status ≠ .empty) : h.runStack fuel activity s = some (.ok r, s₂) := by
  simp only [Event.received] at hemit
  simp only [runStack, Eval.bind_apply, Eval.turn, if_pos hdepth, hemit, Bool.false_eq_true,
    if_false, hadvance, if_neg hr]
  rfl

/-- Cancelling from the inside unwinds once. All frames are registered, with dialogs that handle
none of the events, the activity's among them, and leave the stacks alone; those that host others
are components. The continuation of the innermost dialog cancels everything with one of the
events. Then the turn is cancelled and has no result, and no stack is kept. The journal has it
all: the activity was offered to the active dialogs, which declined it; then each component on
the way in was called on once, and during its call there was nothing but the call one level in;
and the innermost call holds the cancellation of the whole lineup. So no component ended,
resumed or asked anything after it, and the root dialog was not begun. Of all frames there were,
each was told once of its end, and that it was cancelled. -/
theorem handle_cancelled (h : Host) (E : Event → Prop) (store : Store σ) (a : Activity)
    {kept after : σ} {found : Option Snapshot} {turn : Turn} {d : Dialog}
    (hload : store.load a.conversation kept = (.ok found, after))
    (hstart : Turn.start a (found.getD {}) h.settings = .ok turn)
    (htree : ∀ f ∈ turn.stack, Registered (Dialog.Yielding E) h.view f)
    (hinnermost : (h.view.leaf turn).listener? turn = some d)
    (hactivity : E (.received a.toJson)) (hcancels : h.CancelsInside E a turn d) :
    ∃ (n : Nat) (final : Turn) (round : List Entry) (entry : Entry),
      (∀ fuel ≥ n, h.handle fuel store a kept =
        some ((store.save a.conversation final.snapshot after).1.map fun _ =>
            { status := .cancelled, result := none, replies := h.stamped final.outbox },
          round ++ [entry], (store.save a.conversation final.snapshot after).2)) ∧
      final.stack = [] ∧ final.snapshot.conversation.find? Turn.stackKey = none ∧
      Asked (.received a.toJson) turn.shape
        (Chance.round (View.listeners turn (h.view.leaf turn).outward)) false round ∧
      (∃ t name value entries, ∃ notes : List Json, t.shape = turn.shape ∧ E { name, value } ∧
        Inward t (h.view.leaf turn) (notes.map .noted ++ entries) h.view entry ∧
        Cancels { name, value } (h.view.leaf turn) false
          (Stack.lineup (h.view.leaf turn).level turn.shape) entries []) ∧
      (Entry.notices (round ++ [entry])).Perm ((Stack.census 0 turn.stack).map .cancelled) := by
  have hframes : ∀ f ∈ turn.shape, Registered (Dialog.Yielding E) h.view f := by
    intro f hf
    obtain ⟨g, hg, rfl⟩ := Stack.mem_bare.mp hf
    exact (htree g hg).bare
  have hroot : Entered (Dialog.Yielding E) h.view turn.shape h.view := .root rfl hframes
  obtain ⟨hreach, hsome, -⟩ := h.view.leaf_deepest turn
  have hactive : (turn.active? h.view.level).isSome := by
    obtain ⟨f, hf, -⟩ := Option.bind_eq_some_iff.mp hinnermost
    rw [← hsome, hf]
    rfl
  have hdepth : 0 < turn.depth 0 := by
    obtain ⟨f, hf⟩ := Option.isSome_iff_exists.mp hactive
    obtain ⟨rest, hu⟩ := Turn.stackAt?_of_active? hf
    have hlength : turn.depth 0 = rest.length + 1 := Turn.depth_of_stackAt? hu
    omega
  obtain ⟨n, s₁, round, hemit, hshape, hjournal, hnone, hasked⟩ :=
    Engine.emit_unhandled (s := { turn }) rfl hactivity hroot hactive
  obtain ⟨name, value, he, hleft⟩ := hcancels n s₁ (hemit n (Nat.le_refl n))
  -- from here on the turn is the one that the dialogs have left
  have hleaf : h.view.leaf s₁.turn = h.view.leaf turn := View.leaf_of_shape hshape h.view
  have hroot₁ : Entered (Dialog.Yielding E) h.view s₁.turn.shape h.view := hshape ▸ hroot
  have hlistener : (h.view.leaf s₁.turn).listener? s₁.turn = some d := by
    rw [hleaf, View.listener?_of_shape hshape]
    exact hinnermost
  rw [← hleaf] at hleft
  obtain ⟨m, final, notes, entries, hgone, hentries, htold, hcall⟩ :=
    Engine.call_cancels hroot₁.leaf he hlistener hleft
  obtain ⟨k, entry, hinward, hadvance⟩ :=
    Engine.advance_inward hlistener hcall (h.view.leaf_deepest s₁.turn).1 hroot₁
  rw [hleaf, hshape] at hentries
  rw [hleaf] at hinward
  have hempty : final.stack = [] := Stack.bare_eq_nil.mp hgone
  refine ⟨max n k, final, round, entry, fun fuel hfuel => ?_, hempty, ?_, hasked,
    ⟨s₁.turn, name, value, entries, notes, hshape, he, hinward, hentries⟩, ?_⟩
  · have hrun := runStack_goes (h := h) hdepth (hemit fuel (by omega))
      (hadvance fuel (by omega) s₁ rfl) (by simp [TurnResult.cancelled])
    have hentered : s₁.journal ++ [entry] = round ++ [entry] := by rw [hjournal, List.nil_append]
    simp only [handle, hload, respond_of_start hstart, hrun, hentered]
    rfl
  · simp [Turn.snapshot, hempty]
  · rw [Entry.notices_append, hnone, hinward.notices, Entry.notices_append, Entry.notices_noted]
    rw [hshape, Turn.shape, Stack.census_bare] at htold
    exact htold

end Host

/-! ## Two trays on a trolley -/

/-- A dialog that waits until the word to cancel is said. -/
def Dialog.cup : Dialog where
  id := "cup"
  onBegin _ := pure .waiting
  onContinue := do
    if (← Program.activity).textOrEmpty = "cancel" then Program.run (.cancelAll "cancelDialog" none)
    else return .waiting

def Component.tray : Component where
  id := "tray"
  initial := "cup"
  dialogs := Table.empty.insert "cup" .cup

def Component.trolley : Component where
  id := "trolley"
  initial := "tray"
  dialogs := Table.empty.insert "tray" Component.tray.dialog

def Host.canteen : Host where
  dialogs := Table.empty.insert "trolley" Component.trolley.dialog
  root := "trolley"

/-- Two trays are on the trolley, one over the other, and each has a cup. -/
def Turn.served : Turn where
  activity := .message "c" "serve"
  stack := [{
    id := "trolley"
    children := [
      { id := "tray", children := [.owning "cup"] },
      { id := "tray", children := [.owning "cup"] }] }]

theorem Dialog.cup_yielding (E : Event → Prop) (v : View) : Dialog.cup.Yielding E v where
  before _ _ := passive_of_done rfl
  after _ _ := passive_of_done rfl
  close := .inl ⟨rfl, passive_of_done rfl⟩

theorem Host.handle_cancelled_canteen : ∃ n outcome entries kept snapshot,
    (∀ fuel ≥ n, canteen.handle fuel .memory (.message "c" "cancel")
      (Table.empty.insert "c" Turn.served.snapshot) = some (.ok outcome, entries, kept)) ∧
    outcome.status = .cancelled ∧ kept.find? "c" = some snapshot ∧
    snapshot.conversation.find? Turn.stackKey = none ∧
    (Entry.notices entries).Perm
      (.map .cancelled [(0, "trolley"), (1, "tray"), (2, "cup"), (1, "tray"), (2, "cup")]) := by
  let turn : Turn := .opening (.message "c" "cancel") .empty Turn.served.snapshot.user
    (Turn.served.snapshot.conversation.erase Turn.stackKey) Turn.served.stack
  have hload : Store.memory.load "c" (Table.empty.insert "c" Turn.served.snapshot) =
      (.ok (some Turn.served.snapshot), Table.empty.insert "c" Turn.served.snapshot) := by simp
  have hstart : Turn.start (.message "c" "cancel") Turn.served.snapshot canteen.settings =
      .ok turn := Turn.start_of_stack? (Turn.snapshot_stack? .served) _ _
  have htree : ∀ f ∈ turn.stack, Registered (Dialog.Yielding fun _ => True) canteen.view f := by
    intro f hf
    obtain rfl := List.mem_singleton.mp hf
    refine .hosting rfl (Component.trolley.yielding _ _) rfl fun tray htray => ?_
    obtain ⟨hid, hchildren⟩ : tray.id = "tray" ∧ tray.children = [.owning "cup"] := by
      rcases List.mem_cons.mp htray with rfl | hlower
      · exact ⟨rfl, rfl⟩
      · obtain rfl := List.mem_singleton.mp hlower
        exact ⟨rfl, rfl⟩
    refine .hosting (by rw [hid]; rfl) (Component.tray.yielding _ _) rfl fun cup hcup => ?_
    rw [hchildren] at hcup
    obtain rfl := List.mem_singleton.mp hcup
    exact .idle rfl (Dialog.cup_yielding _ _) rfl
  have hcancels : canteen.CancelsInside (fun _ => True) (.message "c" "cancel") turn .cup := by
    intro fuel s hemit
    cases fuel with
    | zero => cases hemit
    | succ fuel =>
      cases hemit
      exact ⟨"cancelDialog", none, trivial, rfl⟩
  obtain ⟨n, final, round, entry, hhandle, -, hgone, -, -, htold⟩ :=
    handle_cancelled canteen (fun _ => True) .memory (.message "c" "cancel") hload hstart htree
      (d := .cup) rfl trivial hcancels
  have hkept : ((Table.empty.insert "c" Turn.served.snapshot).insert "c" final.snapshot).find? "c" =
      some final.snapshot := by simp
  exact ⟨n, _, round ++ [entry], _, final.snapshot, hhandle, rfl, hkept, hgone, htold⟩

end Colloquy
