import Colloquy.Proofs.Engine.Events
import Colloquy.Proofs.Runs.Rounds
import Colloquy.Proofs.Runs.Stretch

/-!
# Who is told of the end

Whatever a cancellation ends is told of it, frames that other components host included. Where
nobody handles the event and the hooks leave the stacks alone, these are all frames that there
are, and each of them is told once.
-/
namespace Colloquy

/-! ## All frames there are -/

mutual
/-- A frame and the frames inside it, by their levels and ids, each before those inside it. -/
def Frame.census (level : Nat) : Frame → List (Nat × String)
  | ⟨id, _, _, children⟩ => (level, id) :: Stack.census (level + 1) children

def Stack.census (level : Nat) : List Frame → List (Nat × String)
  | [] => []
  | f :: rest => f.census level ++ Stack.census level rest
end

theorem Frame.census_eq (level : Nat) (f : Frame) :
    f.census level = (level, f.id) :: Stack.census (level + 1) f.children := by
  cases f
  rfl

namespace Stack

theorem census_eq_flatMap (level : Nat) (s : Stack) :
    census level s = s.flatMap (Frame.census level) := by
  induction s with
  | nil => rfl
  | cons f rest ih => rw [census, ih, List.flatMap_cons]

mutual
theorem census_bare_frame : ∀ (level : Nat) (f : Frame), f.bare.census level = f.census level
  | level, ⟨id, memory, shared, children⟩ => by
    simp only [Frame.bare, Frame.census, census_bare (level + 1) children]

theorem census_bare : ∀ (level : Nat) (s : Stack), census level (bare s) = census level s
  | level, [] => rfl
  | level, f :: rest => by
    rw [bare_cons, census, census, census_bare_frame level f, census_bare level rest]
end

/-- Of the frames there are, some are in the stack at a level or inside its frames, and the
others are those that there are without that stack. -/
theorem census_level {n : Nat} {s u : Stack} (h : level? n s = some u) (level : Nat) :
    (census level s).Perm (census (level + n) u ++ census level (put n [] s)) := by
  induction n generalizing s level with
  | zero =>
    obtain rfl := Option.some.inj h
    simp [census]
  | succ n ih => cases s with
    | nil => cases h
    | cons f rest =>
      have hput : put (n + 1) [] (f :: rest) =
          { f with children := put n [] f.children } :: rest := rfl
      have hinner := (ih h (level + 1)).append_right (census level rest)
      rw [Nat.add_right_comm level 1 n, List.append_assoc] at hinner
      rw [hput, census, census, Frame.census_eq level f, Frame.census_eq]
      exact (hinner.cons (level, f.id)).trans List.perm_middle.symm

/-- A lineup leaves out no frame, and it has none twice. -/
theorem census_lineup (n : Nat) (s : Stack) :
    ((lineup n s).flatMap fun e => e.2.census e.1).Perm (census 0 s) := by
  induction n generalizing s with
  | zero => rw [lineup, List.flatMap_map, census_eq_flatMap]
  | succ n ih =>
    rw [lineup, List.flatMap_append, List.flatMap_map, ← census_eq_flatMap]
    have houter := (ih (put (n + 1) [] s)).append_left
      (census (n + 1) ((level? (n + 1) s).getD []))
    cases hlevel : level? (n + 1) s with
    | none =>
      rw [hlevel, put_of_none hlevel] at houter
      rw [put_of_none hlevel]
      exact houter
    | some u =>
      have hall := census_level hlevel 0
      rw [Nat.zero_add] at hall
      rw [hlevel] at houter
      exact houter.trans hall.symm

end Stack

/-! ## Notices -/

/-- The end of a frame as its dialog is told of it: the level, the id of the frame that is
active there, and the reason. -/
structure Notice where
  level : Nat
  id : Option String
  reason : Reason

namespace Notice

def cancelled (place : Nat × String) : Notice :=
  { level := place.1, id := some place.2, reason := .cancelled }

end Notice

def HookCall.notice? (c : HookCall) : Option Notice :=
  match c.hook with
  | .close reason => some { level := c.level, id := (c.turn.active? c.level).map Frame.id, reason }
  | _ => none

namespace Entry

/-- The ends that dialogs are told of in the entries, and during other hooks too. -/
def notices (entries : List Entry) : List Notice :=
  (callsOf entries).filterMap HookCall.notice?

theorem notices_append (before after : List Entry) :
    notices (before ++ after) = notices before ++ notices after := by
  rw [notices, callsOf_append, List.filterMap_append]
  rfl

theorem notices_noted (contents : List Json) : notices (contents.map .noted) = [] := by
  rw [notices, callsOf_noted]
  rfl

theorem notices_called (c : HookCall) (answer : Except Fault c.hook.Reply)
    (during : List Entry) :
    notices [.called c answer during] = c.notice?.toList ++ notices during := by
  simp only [notices, callsOf, calls, List.append_nil]
  cases hc : c.notice? with
  | none => rw [List.filterMap_cons_none hc]; rfl
  | some notice => rw [List.filterMap_cons_some hc]; rfl

end Entry

/-- With enough fuel the evaluation comes to the value. Then the stack has the shape, and the
notices are those that were given meanwhile. -/
def Eval.Tells (x : Nat → Eval α) (s : Session) (a : α) (shape : Stack) (told : List Notice) :
    Prop :=
  Settles x s fun outcome s' => outcome = .ok a ∧ s'.turn.shape = shape ∧
    ∃ entries, s'.journal = s.journal ++ entries ∧ Entry.notices entries = told

namespace Eval
variable {s : Session} {shape : Stack} {told : List Notice}

theorem tells_pure {a : α} (hshape : s.turn.shape = shape) :
    Tells (fun _ => pure a) s a shape [] :=
  settles_of_eq (fun _ => rfl) ⟨rfl, hshape, [], (List.append_nil _).symm, rfl⟩

theorem tells_bind {x : Nat → Eval α} {f : Nat → α → Eval β} {a : α} {b : β} {shape' : Stack}
    {more : List Notice} (hx : Tells x s a shape told)
    (hf : ∀ s' : Session, s'.turn.shape = shape →
      Tells (fun fuel => f fuel a) s' b shape' more) :
    Tells (fun fuel => x fuel >>= f fuel) s b shape' (told ++ more) := by
  obtain ⟨n, _, s₁, hfirst, rfl, hshape, entries, hjournal, htold⟩ := hx
  obtain ⟨m, _, s₂, hsecond, rfl, hshape', others, hjournal', hmore⟩ := hf s₁ hshape
  refine ⟨max n m, .ok b, s₂, fun fuel hfuel => ?_, rfl, hshape', entries ++ others, ?_, ?_⟩
  · have hdone := hfirst fuel (by omega)
    have hrest := hsecond fuel (by omega)
    simp only [bind_apply, hdone, hrest]
  · rw [hjournal', hjournal, List.append_assoc]
  · rw [Entry.notices_append, htold, hmore]

end Eval

/-! ## Dialogs that yield -/

namespace Dialog

/-- Called while a frame of the dialog is active, the hook gives the answer and starts, ends and
moves nothing, and no dialog is told of an end meanwhile. -/
def Passive (v : View) (d : Dialog) (hook : Hook) (answer : hook.Reply) : Prop :=
  ∀ s f, s.turn.active? v.level = some f → v.find? f.id = some d →
    ∃ fuel s' during, Engine.call fuel v d hook s = some (.ok answer, s') ∧
      s'.turn.shape = s.turn.shape ∧
      s'.journal = s.journal ++ [.called (.of v d s.turn hook) (.ok answer) during] ∧
      Entry.notices during = []

/-- A dialog that handles none of the events and leaves the stacks alone when it is asked or
told of its end. One that hosts dialogs goes on and ends as components do. -/
structure Yielding (E : Event → Prop) (v : View) (d : Dialog) : Prop where
  before (event : Event) (he : E event) : d.Passive v (.before event) false
  after (event : Event) (he : E event) : d.Passive v (.after event) false
  close : (d.children = none ∧ d.Passive v (.close .cancelled) ()) ∨
    (d.children.isSome ∧ d.onClose = Component.close ∧ d.onContinue = Component.advance)

variable {v : View} {d : Dialog}

theorem Passive.harmless {hook : Hook} {answer : hook.Reply} (h : d.Passive v hook answer) :
    d.Harmless v hook := by
  intro s f hf hd
  obtain ⟨fuel, s', during, hcall, hshape, -⟩ := h s f hf hd
  exact ⟨fuel, answer, s', hcall, hshape⟩

theorem Yielding.cancellable {E : Event → Prop} {event : Event} (h : d.Yielding E v)
    (he : E event) : d.Cancellable event v where
  before := (h.before event he).harmless
  after := (h.after event he).harmless
  close := h.close.imp (And.imp_right Passive.harmless) (And.imp_right And.left)

/-- A hook that answers by itself is passive. -/
theorem passive_of_done {hook : Hook} {answer : hook.Reply}
    (h : d.program hook = .done (.ok answer)) : d.Passive v hook answer := by
  intro s f _ _
  have hstretch : (d.program hook).stretch v s.turn = ⟨.done (.ok answer), s.turn, []⟩ := by
    rw [h]
    rfl
  exact ⟨1, _, [], Engine.call_of_done hstretch 0, rfl, rfl, rfl⟩

end Dialog

/-- A component yields by itself, whatever it hosts. -/
theorem Component.yielding (c : Component) (E : Event → Prop) (v : View) :
    c.dialog.Yielding E v where
  before _ _ := Dialog.passive_of_done rfl
  after _ _ := Dialog.passive_of_done rfl
  close := .inr ⟨rfl, rfl, rfl⟩

theorem Registered.mono {P Q : View → Dialog → Prop} (h : ∀ v d, P v d → Q v d) {v : View}
    {f : Frame} (hf : Registered P v f) : Registered Q v f := by
  induction hf with
  | idle hd hp hidle => exact .idle hd (h _ _ hp) hidle
  | hosting hd hp hset _ ih => exact .hosting hd (h _ _ hp) hset ih

namespace Engine
open Eval

variable {v : View} {d : Dialog} {s : Session} {f : Frame} {rest : Stack} {event : Event}
  {E : Event → Prop}

theorem passive_tells {hook : Hook} {answer : hook.Reply} (h : d.Passive v hook answer)
    (hs : Stack.level? v.level s.turn.shape = some (f :: rest)) (hd : v.find? f.id = some d) :
    Tells (fun fuel => call fuel v d hook) s answer s.turn.shape
      (HookCall.of v d s.turn hook).notice?.toList := by
  obtain ⟨g, hg, -, hgd⟩ := View.active?_of_shape hs hd
  obtain ⟨n, s', during, hcall, hshape, hjournal, hquiet⟩ := h s g hg hgd
  refine call_settles hcall ⟨rfl, hshape, _, hjournal, ?_⟩
  rw [Entry.notices_called, hquiet, List.append_nil]

/-! ## Offering -/

/-- A dialog that declines an event, as all do further out, declines it twice. -/
theorem offer_tells (hs : Stack.level? v.level s.turn.shape = some (f :: rest))
    (hd : v.find? f.id = some d) (hbefore : d.Passive v (.before event) false)
    (hafter : d.Passive v (.after event) false) {outward : Nat → Eval Bool}
    (houtward : ∀ s₁ : Session, s₁.turn.shape = s.turn.shape →
      Tells outward s₁ false s.turn.shape []) :
    Tells (fun fuel => offer (call fuel) event v (outward fuel)) s false s.turn.shape [] := by
  obtain ⟨g, hg, -, hgd⟩ := View.active?_of_shape hs hd
  have hasked (fuel : Nat) : offer (call fuel) event v (outward fuel) s =
      (call fuel v d (.before event) >>= fun handled =>
        if handled then pure true else outward fuel >>= fun handled =>
          if handled then pure true else call fuel v d (.after event)) s := by
    simp only [offer, bind_apply, turn, hg, hgd]
  refine settles_congr (fun fuel => hasked fuel) ?_
  have hfirst : Tells (fun fuel => call fuel v d (.before event)) s false s.turn.shape [] :=
    passive_tells hbefore hs hd
  refine tells_bind hfirst fun s₁ hs₁ => tells_bind (houtward s₁ hs₁) fun s₂ hs₂ => ?_
  rw [← hs₂] at hs ⊢
  exact passive_tells hafter hs hd

/-- In the turn, the dialog that is active at the level of the view declines the event. -/
def Declined (event : Event) (shape : Stack) (v : View) : Prop :=
  ∀ f rest, Stack.level? v.level shape = some (f :: rest) → ∃ d, v.find? f.id = some d ∧
    d.Passive v (.before event) false ∧ d.Passive v (.after event) false

theorem Declined.attentive (h : Declined event s.turn.shape v) : v.Attentive event s.turn := by
  intro f hf
  obtain ⟨rest, hu⟩ := Turn.stackAt?_of_active? hf
  obtain ⟨d, hd, hbefore, hafter⟩ := h f.bare _ (Turn.level?_shape_of_stackAt? hu)
  exact ⟨d, by rw [← Frame.bare_id, hd], hbefore.harmless, hafter.harmless⟩

theorem offer_declined (h : Declined event s.turn.shape v) {outward : Nat → Eval Bool}
    (houtward : ∀ s₁ : Session, s₁.turn.shape = s.turn.shape →
      Tells outward s₁ false s.turn.shape []) :
    Tells (fun fuel => offer (call fuel) event v (outward fuel)) s false s.turn.shape [] := by
  cases hf : s.turn.active? v.level with
  | none =>
    refine settles_congr (fun fuel => ?_) (tells_pure rfl)
    simp only [offer, bind_apply, turn, hf]
  | some f =>
    obtain ⟨below, hu⟩ := Turn.stackAt?_of_active? hf
    have hs := Turn.level?_shape_of_stackAt? hu
    obtain ⟨d, hd, hbefore, hafter⟩ := h f.bare (Stack.bare below) hs
    exact offer_tells hs hd hbefore hafter houtward

theorem dispatch_declined (own : DialogSet) (outer : List DialogSet)
    (h : ∀ w ∈ View.outwardFrom own outer, Declined event s.turn.shape w) :
    Tells (fun fuel => dispatch (call fuel) event own outer) s false s.turn.shape [] := by
  induction outer generalizing own s with
  | nil =>
    have hown := h { own } (List.mem_singleton_self _)
    exact offer_declined hown fun s₁ hs₁ => tells_pure hs₁
  | cons next outer ih =>
    have hown := h { own, outer := next :: outer } List.mem_cons_self
    refine offer_declined hown fun s₁ hs₁ => ?_
    cases event.bubble with
    | false => exact tells_pure hs₁
    | true =>
      rw [← hs₁] at h ⊢
      exact ih next fun w hw => h w (List.mem_cons_of_mem _ hw)

/-- An event that all decline who could hear it is not handled. -/
theorem emit_declined {fromLeaf : Bool}
    (h : ∀ w ∈ (v.origin s.turn fromLeaf).outward, Declined event s.turn.shape w) :
    Tells (fun fuel => emit (call fuel) v event fromLeaf) s false s.turn.shape [] :=
  settles_congr (fun fuel => emit_eq_dispatch (call fuel) v event fromLeaf s)
    (dispatch_declined _ _ h)

/-! ## Ending -/

/-- Ending the frame while it is active pops it; it and all frames inside it are told. -/
def EndsOnce (v : View) (f : Frame) : Prop :=
  ∀ s rest, Stack.level? v.level s.turn.shape = some (f :: rest) →
    Tells (fun fuel => endActive (call fuel) v .cancelled none) s ()
      (Stack.put v.level rest s.turn.shape) ((f.census v.level).map .cancelled)

/-- The end of the active frame is one notice, with those that are given meanwhile. -/
theorem notices_close (hs : Stack.level? v.level s.turn.shape = some (f :: rest))
    (during : List Entry) :
    Entry.notices [.called (.of v d s.turn (.close .cancelled)) (.ok ()) during] =
      .cancelled (v.level, f.id) :: Entry.notices during := by
  obtain ⟨g, hg, hbare⟩ := Turn.active?_of_shape hs
  have hid : g.id = f.id := by rw [← hbare, Frame.bare_id]
  rw [Entry.notices_called]
  simp only [HookCall.notice?, hg, Option.map_some, hid]
  rfl

theorem leaf_endsOnce (hd : v.find? f.id = some d) (hidle : f.children = [])
    (hclose : d.Passive v (.close .cancelled) ()) : EndsOnce v f := by
  intro s rest hs
  obtain ⟨g, hg, -, hgd⟩ := View.active?_of_shape hs hd
  obtain ⟨n, s', during, hcall, hshape, hjournal, hquiet⟩ := hclose s g hg hgd
  have hs' : Stack.level? v.level s'.turn.shape = some (f :: rest) := by rw [hshape, hs]
  refine ⟨n, .ok (), { s' with turn := s'.turn.pop v.level }, fun fuel hfuel => ?_, rfl, ?_, _,
    hjournal, ?_⟩
  · exact endActive_eq hs hd (call_sub hfuel v d _ s _ hcall) hs' (writeOutput_none v d)
  · rw [Turn.shape_pop hs', hshape]
    rfl
  · rw [notices_close hs, hquiet, Frame.census_eq, hidle]
    rfl

theorem clear_tells {frames : Stack} (h : ∀ g ∈ frames, EndsOnce v g)
    (hs : Stack.level? v.level s.turn.shape = some frames) : ∃ n s' entries,
      (∀ fuel ≥ n, ∀ bound ≥ n,
        clear (call fuel) v .cancelled bound s = some (.ok (), s')) ∧
      s'.turn.shape = Stack.put v.level [] s.turn.shape ∧ s'.journal = s.journal ++ entries ∧
      Entry.notices entries = (Stack.census v.level frames).map .cancelled := by
  induction frames generalizing s with
  | nil =>
    exact ⟨1, s, [], clear_empty hs, (Stack.put_self hs).symm, (List.append_nil _).symm, rfl⟩
  | cons f below ih =>
    obtain ⟨n, _, s₁, hend, rfl, hshape, entries, hjournal, htold⟩ :=
      h f List.mem_cons_self s below hs
    have hs₁ : Stack.level? v.level s₁.turn.shape = some below := by
      rw [hshape]
      exact Stack.level?_put hs below
    obtain ⟨m, s₂, others, hclear, hshape', hjournal', hmore⟩ :=
      ih (fun g hg => h g (List.mem_cons_of_mem f hg)) hs₁
    refine ⟨max n m + 1, s₂, entries ++ others, clear_first hs hend hclear, ?_, ?_, ?_⟩
    · rw [hshape', hshape, Stack.put_put]
    · rw [hjournal', hjournal, List.append_assoc]
    · rw [Entry.notices_append, htold, hmore, Stack.census, List.map_append]

theorem component_endsOnce {hosted : DialogSet} (hd : v.find? f.id = some d)
    (hset : d.children = some hosted) (hclose : d.onClose = Component.close)
    (hframes : ∀ g ∈ f.children, EndsOnce (v.enter hosted) g) : EndsOnce v f := by
  intro s rest hs
  -- what happens during the call is entered apart from what came before it
  obtain ⟨n, s₁, during, hclear, hshape, hjournal, htold⟩ :=
    clear_tells (s := { s with journal := [] }) hframes (Stack.level?_succ hs)
  obtain rfl : s₁.journal = during := hjournal
  obtain ⟨s₂, hend, hpop, hentered⟩ := endActive_component hs hd hset hclose hclear hshape
  refine ⟨n + 1, .ok (), s₂, hend, rfl, hpop, _, hentered, ?_⟩
  rw [notices_close hs, htold, Frame.census_eq]
  rfl

/-- A frame that is registered with dialogs that yield ends with all frames inside it. -/
theorem endsOnce_of_registered (h : Registered (Dialog.Yielding E) v f) : EndsOnce v f := by
  induction h with
  | idle hd hp hidle =>
    rcases hp.close with ⟨-, hclose⟩ | ⟨hset, hclose, -⟩
    · exact leaf_endsOnce hd hidle hclose
    · obtain ⟨hosted, hset⟩ := Option.isSome_iff_exists.mp hset
      refine component_endsOnce hd hset hclose fun g hg => ?_
      rw [hidle] at hg
      exact absurd hg List.not_mem_nil
  | hosting hd hp hset _ ih =>
    rcases hp.close with ⟨hleaf, -⟩ | ⟨-, hclose, -⟩
    · rw [hset] at hleaf
      cases hleaf
    · exact component_endsOnce hd hset hclose ih

/-! ## Going outward -/

/-- Nothing of the lineup is left, and its frames with all frames inside them were told. -/
def AllTold (lineup : List (Nat × Frame)) (entries : List Entry)
    (remaining : List (Nat × Frame)) : Prop :=
  remaining = [] ∧
    Entry.notices entries = (lineup.flatMap fun e => e.2.census e.1).map .cancelled

theorem declined_of_registered {shape : Stack} (he : E event)
    (h : ∀ f rest, Stack.level? v.level shape = some (f :: rest) →
      Registered (Dialog.Yielding E) v f) : Declined event shape v := by
  intro f rest hs
  obtain ⟨d, hd, hyields⟩ := (h f rest hs).dialog
  exact ⟨d, hd, hyields.before event he, hyields.after event he⟩

theorem outward_tells {top : View} (hbubble : event.bubble = false) (he : E event)
    (hv : v.sets <:+ top.sets)
    (hregistered : ∀ level f, (level, f) ∈ Stack.lineup v.level s.turn.shape →
      Registered (Dialog.Yielding E) (top.atLevel level) f) : Outward event AllTold v s := by
  induction v, s using outward_induction with
  | hstop v s hframes hparent => exact outward_stop hframes hparent ⟨rfl, rfl⟩
  | hclimb v p s hframes hparent ih =>
    have hp := (View.sets_parent?_suffix hparent).trans hv
    have hlineup := lineup_parent hframes hparent
    exact outward_climb hframes hparent
      (ih hp fun level g hg => hregistered level g (hlineup ▸ hg))
  | hround v s f rest hs ih =>
    have htop : top.atLevel v.level = v := View.atLevel_of_suffix hv
    have hlineup := Stack.lineup_eq_cons hs
    obtain ⟨hfirst, hrest⟩ := (Stack.forall_lineup hs).mp hregistered
    have hreg : Registered (Dialog.Yielding E) v f := htop ▸ hfirst
    have hoffer : Tells (fun fuel => emit (call fuel) v event false) s false s.turn.shape [] := by
      refine settles_congr (fun fuel => congrFun (emit_eq_offer (call fuel) v hbubble) s) ?_
      refine offer_declined (declined_of_registered he fun g below hg => ?_) fun s₁ hs₁ =>
        tells_pure hs₁
      rw [hs] at hg
      obtain ⟨rfl, rfl⟩ := List.cons.inj (Option.some.inj hg)
      exact hreg
    obtain ⟨n, _, s₁, hemit, rfl, hshape, offers, hjournal, hnone⟩ := hoffer
    have hs₁ : Stack.level? v.level s₁.turn.shape = some (f :: rest) := by rw [hshape, hs]
    obtain ⟨m, _, s₂, hend, rfl, hshape', ending, hjournal', htold⟩ :=
      endsOnce_of_registered hreg s₁ rest hs₁
    rw [hshape] at hshape'
    have hentries : s₂.journal = s.journal ++ (offers ++ ending) := by
      rw [hjournal', hjournal, List.append_assoc]
    have hafter := ih s₂ hshape' hv (hshape' ▸ hrest)
    refine outward_ended hs hemit hend hentries hafter ?_
    rintro more remaining ⟨hgone, hmore⟩
    refine ⟨hgone, ?_⟩
    rw [Entry.notices_append, Entry.notices_append, hnone, htold, hmore, hlineup, hshape',
      List.flatMap_cons, List.map_append]
    rfl

/-- A cancellation that nobody handles, from a context with frames of its own, leaves nothing.
Of all frames there were each is told once of its end; the active one is not offered the event
before, and all others in the way outward are. -/
theorem cancelAll_tells {name : String} {value : Option Json} (he : E { name, value })
    (hs : Stack.level? v.level s.turn.shape = some (f :: rest))
    (hregistered : ∀ level f, (level, f) ∈ Stack.lineup v.level s.turn.shape →
      Registered (Dialog.Yielding E) (v.atLevel level) f) :
    ∃ n s' entries,
      (∀ fuel ≥ n, cancelAll (call fuel) v name value fuel s = some (.ok .cancelled, s')) ∧
      s'.turn.shape = [] ∧ s'.journal = s.journal ++ entries ∧
      Cancels { name, value } v false (Stack.lineup v.level s.turn.shape) entries [] ∧
      (Entry.notices entries).Perm ((Stack.census 0 s.turn.shape).map .cancelled) := by
  have hlineup := Stack.lineup_eq_cons hs
  have htop : v.atLevel v.level = v := View.atLevel_of_suffix (List.suffix_refl _)
  obtain ⟨hfirst, houter⟩ := (Stack.forall_lineup hs).mp hregistered
  rw [htop] at hfirst
  obtain ⟨n, _, s₁, hend, rfl, hshape, ending, hjournal, htold⟩ :=
    endsOnce_of_registered hfirst s rest hs
  obtain ⟨m, s₂, more, remaining, hrest, hjournal', hremains, rfl, hmore⟩ :=
    outward_tells (s := s₁) rfl he (List.suffix_refl v.sets) (hshape ▸ houter)
  have hrun := cancelAll_first hs hend hrest
  have hentries : s₂.journal = s.journal ++ (ending ++ more) := by
    rw [hjournal', hjournal, List.append_assoc]
  -- the entries of this run are known from the cancellation in general
  obtain ⟨k, s₃, entries, remaining, hrun', hentries', hremains', hcancels⟩ :=
    cancelAll_cancels hs fun level g hg =>
      (hregistered level g hg).mono fun _ _ hyields => hyields.cancellable he
  obtain ⟨-, rfl⟩ := Prod.mk.inj (settled_unique hrun hrun')
  obtain rfl : ending ++ more = entries := List.append_cancel_left (hentries.symm.trans hentries')
  obtain rfl : remaining = [] := by
    cases remaining with
    | nil => rfl
    | cons e left =>
      rw [hremains, Stack.Remains, Stack.lineup_nil] at hremains'
      cases hremains'
  refine ⟨_, s₂, _, hrun, hremains, hentries, hcancels, ?_⟩
  have hall := Stack.census_lineup v.level s.turn.shape
  rw [hlineup, List.flatMap_cons] at hall
  rw [Entry.notices_append, htold, hmore, hshape, ← List.map_append]
  exact hall.map _

end Engine
end Colloquy
