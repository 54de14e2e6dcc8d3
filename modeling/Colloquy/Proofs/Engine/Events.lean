import Colloquy.Proofs.Cancellation.Innermost
import Colloquy.Proofs.Detachment
import Colloquy.Proofs.Engine.Settling
import Colloquy.Proofs.Memory.Search
import Mathlib.Logic.Relation

/-!
# Events

An event is emitted in a context or in the deepest one that is running inside it. On its way
out each active dialog has a chance to handle it before the dialogs around do, and on the way
back in another one after they declined. The first that handles it ends the round.
-/
namespace Colloquy

namespace View
variable {v w w' : View} {t : Turn} {f : Frame}

/-! ## The deepest running context -/

/-- The second view is over the stack that the active frame of the first hosts, where dialogs
are running. -/
def Descends (t : Turn) (v w : View) : Prop :=
  ∃ f hosted, t.active? v.level = some f ∧ f.children ≠ [] ∧
    (v.find? f.id).bind Dialog.children = some hosted ∧ w = v.enter hosted

theorem Descends.unique (h : v.Descends t w) (h' : v.Descends t w') : w = w' := by
  obtain ⟨f, hosted, hf, -, hset, rfl⟩ := h
  obtain ⟨f', hosted', hf', -, hset', rfl⟩ := h'
  rw [hf] at hf'
  obtain rfl := Option.some.inj hf'
  rw [hset] at hset'
  obtain rfl := Option.some.inj hset'
  rfl

/-- From an active frame inward there is a view in which a frame is active and from which
there is no way further in. -/
theorem leafUnder_deepest (hf : t.active? v.level = some f) :
    Relation.ReflTransGen (Descends t) v (v.leafUnder f) ∧
      (t.active? (v.leafUnder f).level).isSome ∧ ∀ w, ¬ (v.leafUnder f).Descends t w := by
  fun_induction leafUnder v f with
  | case1 v id memory shared =>
    refine ⟨.refl, by rw [hf]; rfl, ?_⟩
    rintro w ⟨f, hosted, hf', hne, -⟩
    rw [hf] at hf'
    obtain rfl := Option.some.inj hf'
    exact hne rfl
  | case2 v id memory shared g rest hnone =>
    refine ⟨.refl, by rw [hf]; rfl, ?_⟩
    rintro w ⟨f, hosted, hf', -, hset, -⟩
    rw [hf] at hf'
    obtain rfl := Option.some.inj hf'
    rw [hnone] at hset
    cases hset
  | case3 v id memory shared g rest hosted hset ih =>
    have hg : t.active? (v.enter hosted).level = some g := by
      rw [Turn.active?, level_enter, Turn.stackAt?_succ, hf]
      rfl
    obtain ⟨hreach, hactive, hdeepest⟩ := ih hg
    have hfirst : v.Descends t (v.enter hosted) :=
      ⟨_, hosted, hf, List.cons_ne_nil g rest, hset, rfl⟩
    exact ⟨.head hfirst hreach, hactive, hdeepest⟩

theorem leaf_deepest (v : View) (t : Turn) :
    Relation.ReflTransGen (Descends t) v (v.leaf t) ∧
      (t.active? (v.leaf t).level).isSome = (t.active? v.level).isSome ∧
      ∀ w, ¬ (v.leaf t).Descends t w := by
  unfold leaf
  cases hf : t.active? v.level with
  | none =>
    refine ⟨.refl, by simp [hf], ?_⟩
    rintro w ⟨f, hosted, hf', -⟩
    rw [hf] at hf'
    cases hf'
  | some f =>
    obtain ⟨hreach, hactive, hdeepest⟩ := leafUnder_deepest hf
    exact ⟨hreach, hactive, hdeepest⟩

/-- There is no end of the way in but the leaf, and the way in has an end. -/
theorem descends_terminates (v : View) (t : Turn) : Acc (fun w w' => w'.Descends t w) v := by
  obtain ⟨hreach, -, hdeepest⟩ := v.leaf_deepest t
  generalize v.leaf t = innermost at hreach hdeepest
  induction hreach using Relation.ReflTransGen.head_induction_on with
  | refl => exact .intro _ fun w hw => absurd hw (hdeepest w)
  | head hfirst _ ih =>
    refine .intro _ fun w hw => ?_
    rw [hw.unique hfirst]
    exact ih

/-! ## The contexts around -/

/-- The views from one outward to the root. -/
def outwardFrom : DialogSet → List DialogSet → List View
  | own, [] => [{ own }]
  | own, next :: outer => { own, outer := next :: outer } :: outwardFrom next outer

def outward (v : View) : List View := outwardFrom v.own v.outer

/-- The dialog that is active at the level of a view, as the view finds it. -/
def listener? (v : View) (t : Turn) : Option Dialog :=
  (t.active? v.level).bind fun f => v.find? f.id

/-- The views that have an active dialog, with that dialog. -/
def listeners (t : Turn) (views : List View) : List (View × Dialog) :=
  views.filterMap fun v => (v.listener? t).map (v, ·)

/-- The view in which an event starts that is emitted from another. -/
def origin (v : View) (t : Turn) (fromLeaf : Bool) : View := if fromLeaf then v.leaf t else v

/-- The views that an event can reach from where it starts. -/
def reached (v : View) (event : Event) : List View := if event.bubble then v.outward else [v]

/-- The dialog of the frame that is active at the level of the view is registered, and does
no harm when it is asked. -/
def Attentive (event : Event) (t : Turn) (v : View) : Prop :=
  ∀ f, t.active? v.level = some f → ∃ d, v.find? f.id = some d ∧
    d.Harmless v (.before event) ∧ d.Harmless v (.after event)

/-- From the view outward every level occurs once, down to that of the root. -/
theorem levels_outward (v : View) :
    v.outward.map View.level = (List.range (v.level + 1)).reverse := by
  obtain ⟨own, outer⟩ := v
  have hfrom : ∀ own, (outwardFrom own outer).map View.level =
      (List.range (outer.length + 1)).reverse := by
    induction outer with
    | nil => exact fun own => rfl
    | cons next outer ih =>
      intro own
      rw [outwardFrom, List.map_cons, ih next, List.length_cons,
        List.range_succ (n := outer.length + 1), List.reverse_concat]
      rfl
  exact hfrom own

theorem active?_bare (t : Turn) (level : Nat) :
    (t.active? level).map Frame.bare = (Stack.level? level t.shape).bind Stack.active? := by
  rw [Turn.level?_shape, Turn.active?]
  cases t.stackAt? level with
  | none => rfl
  | some u => cases u <;> rfl

theorem listener?_of_shape {t' : Turn} (h : t'.shape = t.shape) (v : View) :
    v.listener? t' = v.listener? t := by
  have hbare (t : Turn) : v.listener? t =
      ((t.active? v.level).map Frame.bare).bind fun f => v.find? f.id := by
    cases hf : t.active? v.level <;> simp [listener?, hf]
  rw [hbare, hbare, active?_bare, active?_bare, h]

theorem listeners_of_shape {t' : Turn} (h : t'.shape = t.shape) (views : List View) :
    listeners t' views = listeners t views := by
  simp only [listeners, listener?_of_shape h]

theorem Attentive.of_shape {event : Event} {t' : Turn} (h : v.Attentive event t)
    (hshape : t'.shape = t.shape) : v.Attentive event t' := by
  intro f' hf'
  have hsame : (t'.active? v.level).map Frame.bare = (t.active? v.level).map Frame.bare := by
    rw [active?_bare, active?_bare, hshape]
  rw [hf', Option.map_some] at hsame
  obtain ⟨f, hf, hbare⟩ := Option.map_eq_some_iff.mp hsame.symm
  obtain ⟨d, hd, hharmless⟩ := h f hf
  refine ⟨d, ?_, hharmless⟩
  rw [← hd, ← Frame.bare_id f', ← hbare, Frame.bare_id]

theorem level_le_of_mem_reached {event : Event} (h : w ∈ v.reached event) :
    w.level ≤ v.level := by
  unfold reached at h
  split at h
  · have hlevel := List.mem_map_of_mem (f := View.level) h
    rw [levels_outward, List.mem_reverse, List.mem_range] at hlevel
    omega
  · obtain rfl := List.mem_singleton.mp h
    exact Nat.le_refl _

/-- Around an active frame there are active frames at all levels. -/
theorem active?_outside {level i : Nat} (h : (t.active? level).isSome) (hi : i ≤ level) :
    (t.active? i).isSome := by
  obtain ⟨f, hf⟩ := Option.isSome_iff_exists.mp h
  obtain ⟨below, hu⟩ := Turn.stackAt?_of_active? hf
  rcases Nat.lt_or_eq_of_le hi with hlt | rfl
  · obtain ⟨g, rest, hg⟩ := Stack.level?_outside hu hlt
    rw [Turn.active?_of_stackAt? hg]
    rfl
  · exact h

/-- From a context that is running, every level that an event can reach has a listener. -/
theorem listeners_reached {event : Event} (h : ∀ w ∈ v.reached event, w.Attentive event t)
    (hactive : (t.active? v.level).isSome) :
    (listeners t (v.reached event)).map Prod.fst = v.reached event := by
  have hall : ∀ w ∈ v.reached event, (w.listener? t).isSome := by
    intro w hw
    have hlevel := level_le_of_mem_reached hw
    obtain ⟨f, hf⟩ := Option.isSome_iff_exists.mp (active?_outside hactive hlevel)
    obtain ⟨d, hd, -⟩ := h w hw f hf
    simp [listener?, hf, hd]
  generalize v.reached event = views at hall
  clear h
  induction views with
  | nil => rfl
  | cons w around ih =>
    obtain ⟨d, hd⟩ := Option.isSome_iff_exists.mp (hall w List.mem_cons_self)
    have haround := ih fun w' hw' => hall w' (List.mem_cons_of_mem w hw')
    rw [listeners, List.filterMap_cons_some (b := (w, d)) (by simp [hd]), List.map_cons]
    exact congrArg (w :: ·) haround

end View

/-! ## Chances to handle an event -/

/-- A chance of a dialog to handle an event, in the context where it is active. -/
inductive Chance where
  | before (v : View) (d : Dialog)
  | after (v : View) (d : Dialog)

namespace Chance

/-- The entry for a chance that was given, in the turn that the dialog found. -/
def entry (event : Event) (t : Turn) (handled : Bool) (during : List Entry) : Chance → Entry
  | .before v d => .called (.of v d t (.before event)) (.ok handled) during
  | .after v d => .called (.of v d t (.after event)) (.ok handled) during

/-- The chances of dialogs one after another, and then again from the last to the first. -/
def round (dialogs : List (View × Dialog)) : List Chance :=
  dialogs.map (fun r => .before r.1 r.2) ++ dialogs.reverse.map fun r => .after r.1 r.2

theorem round_cons (v : View) (d : Dialog) (dialogs : List (View × Dialog)) :
    round ((v, d) :: dialogs) = .before v d :: (round dialogs ++ [.after v d]) := by
  simp [round]

end Chance

/-- Chances are given in order, in turns of one shape, until an event is handled. Whether it
was is the answer, and the entries are those of the chances that were given. -/
inductive Asked (event : Event) (shape : Stack) : List Chance → Bool → List Entry → Prop
  | declined : Asked event shape [] false []
  | handled {c : Chance} {rest : List Chance} {t : Turn} {during : List Entry}
      (ht : t.shape = shape) : Asked event shape (c :: rest) true [c.entry event t true during]
  | next {c : Chance} {rest : List Chance} {t : Turn} {during entries : List Entry}
      {handled : Bool} (ht : t.shape = shape) (h : Asked event shape rest handled entries) :
      Asked event shape (c :: rest) handled (c.entry event t false during :: entries)

namespace Asked
variable {event : Event} {shape : Stack} {chances more : List Chance} {handled : Bool}
  {entries entries' : List Entry}

/-- What is handled is not offered further. -/
theorem stop (h : Asked event shape chances true entries) (more : List Chance) :
    Asked event shape (chances ++ more) true entries := by
  generalize hhandled : true = handled at h
  induction h with
  | declined => cases hhandled
  | handled ht => exact .handled ht
  | next ht _ ih => exact .next ht (ih hhandled)

theorem append (h : Asked event shape chances false entries)
    (h' : Asked event shape more handled entries') :
    Asked event shape (chances ++ more) handled (entries ++ entries') := by
  generalize hhandled : false = declined at h
  induction h with
  | declined => exact h'
  | handled ht => cases hhandled
  | next ht _ ih => exact .next ht (ih hhandled)

theorem last {c : Chance} {t : Turn} (ht : t.shape = shape) (handled : Bool)
    (during : List Entry) : Asked event shape [c] handled [c.entry event t handled during] := by
  cases handled with
  | true => exact .handled ht
  | false => exact .next ht .declined

end Asked

/-- An evaluation that answers whether the event was handled, having given these chances. -/
def Eval.Offers (event : Event) (chances : List Chance) (s : Session)
    (outcome : Except Fault Bool) (s' : Session) : Prop :=
  ∃ handled entries, outcome = .ok handled ∧ s'.turn.shape = s.turn.shape ∧
    s'.journal = s.journal ++ entries ∧ Asked event s.turn.shape chances handled entries

namespace Engine
variable {v : View} {d : Dialog} {s : Session} {event : Event} {f : Frame} {rest : Stack}

/-- A dialog is asked before what is further out, and again after that has declined. -/
theorem offer_settles (hs : Stack.level? v.level s.turn.shape = some (f :: rest))
    (hd : v.find? f.id = some d) (hbefore : d.Harmless v (.before event))
    (hafter : d.Harmless v (.after event)) {outward : Nat → Eval Bool} {chances : List Chance}
    (houtward : ∀ s₁ : Session, s₁.turn.shape = s.turn.shape →
      Eval.Settles outward s₁ (Eval.Offers event chances s₁)) :
    Eval.Settles (fun fuel => offer (call fuel) event v (outward fuel)) s
      (Eval.Offers event (.before v d :: (chances ++ [.after v d])) s) := by
  obtain ⟨g, hg, -, hgd⟩ := View.active?_of_shape hs hd
  obtain ⟨n, handled, s₁, during, hfirst, hshape, hjournal⟩ := harmless_settles hbefore hs hd
  let first : Entry := (Chance.before v d).entry event s.turn handled during
  have hjournal : s₁.journal = s.journal ++ [first] := hjournal
  cases handled with
  | true =>
    refine ⟨n, .ok true, s₁, fun fuel hfuel => ?_, true, [first], rfl, hshape, hjournal,
      .handled rfl⟩
    simp only [offer, Eval.bind_apply, Eval.turn, hg, hgd, hfirst fuel hfuel, if_true]
    rfl
  | false =>
    obtain ⟨m, _, s₂, hsecond, handled, entries, rfl, hshape', hjournal', hasked⟩ :=
      houtward s₁ hshape
    rw [hshape] at hshape' hasked
    have hboth : s₂.journal = s.journal ++ first :: entries := by
      rw [hjournal', hjournal, List.append_assoc, List.singleton_append]
    cases handled with
    | true =>
      refine ⟨max n m, .ok true, s₂, fun fuel hfuel => ?_, true, first :: entries, rfl, hshape',
        hboth, .next rfl (hasked.stop _)⟩
      have hdeclined := hfirst fuel (by omega)
      have houter := hsecond fuel (by omega)
      simp only [offer, Eval.bind_apply, Eval.turn, hg, hgd, hdeclined, houter,
        Bool.false_eq_true, if_false, if_true]
      rfl
    | false =>
      rw [← hshape'] at hs
      obtain ⟨k, handled, s₃, during', hthird, hshape'', hjournal''⟩ :=
        harmless_settles hafter hs hd
      let last : Entry := (Chance.after v d).entry event s₂.turn handled during'
      have hjournal'' : s₃.journal = s₂.journal ++ [last] := hjournal''
      refine ⟨max n (max m k), .ok handled, s₃, fun fuel hfuel => ?_, handled,
        first :: (entries ++ [last]), rfl, hshape''.trans hshape', ?_,
        .next rfl (hasked.append (.last hshape' handled during'))⟩
      · have hdeclined := hfirst fuel (by omega)
        have houter := hsecond fuel (by omega)
        simp only [offer, Eval.bind_apply, Eval.turn, hg, hgd, hdeclined, houter,
          Bool.false_eq_true, if_false]
        exact hthird fuel (by omega)
      · rw [hjournal'', hboth, List.append_assoc, List.cons_append]

theorem pure_offers (s : Session) :
    Eval.Settles (fun _ => (pure false : Eval Bool)) s (Eval.Offers event [] s) :=
  ⟨0, .ok false, s, fun _ _ => rfl, false, [], rfl, rfl, by simp, .declined⟩

/-- Where nothing is active nobody hears an event, whatever is active around. -/
theorem dispatch_idle {caller : Caller} (hidle : s.turn.active? v.level = none) :
    dispatch caller event v.own v.outer s = some (.ok false, s) := by
  obtain ⟨own, outer⟩ := v
  cases outer with
  | nil =>
    simp only [dispatch, offer, Eval.bind_apply, Eval.turn, hidle]
    rfl
  | cons next outer =>
    simp only [dispatch, offer, Eval.bind_apply, Eval.turn, hidle]
    rfl

theorem exists_listener (h : v.Attentive event s.turn)
    (hs : Stack.level? v.level s.turn.shape = some (f :: rest)) :
    ∃ d, v.find? f.id = some d ∧ v.listener? s.turn = some d ∧
      d.Harmless v (.before event) ∧ d.Harmless v (.after event) := by
  obtain ⟨g, hg, hbare⟩ := Turn.active?_of_shape hs
  obtain ⟨d, hd, hharmless⟩ := h g hg
  refine ⟨d, ?_, by simp [View.listener?, hg, hd], hharmless⟩
  rw [← hbare, Frame.bare_id, hd]

/-- An event that stays in its context is offered to the active dialog there. -/
theorem dispatch_settles_here (hbubble : event.bubble = false) (h : v.Attentive event s.turn)
    (hs : Stack.level? v.level s.turn.shape = some (f :: rest)) :
    Eval.Settles (fun fuel => dispatch (call fuel) event v.own v.outer) s
      (Eval.Offers event (Chance.round (View.listeners s.turn [v])) s) := by
  obtain ⟨d, hd, hlistener, hbefore, hafter⟩ := exists_listener h hs
  have hplain (caller : Caller) : dispatch caller event v.own v.outer =
      offer caller event v (pure false) := by
    obtain ⟨own, outer⟩ := v
    cases outer <;> simp [dispatch, hbubble]
  have hround : Chance.round (View.listeners s.turn [v]) = .before v d :: ([] ++ [.after v d]) := by
    simp [View.listeners, hlistener, Chance.round]
  rw [hround]
  exact Eval.settles_congr (fun fuel => congrFun (hplain (call fuel)) s)
    (offer_settles hs hd hbefore hafter fun s₁ _ => pure_offers s₁)

/-- One that bubbles goes from level to level out to the root, and comes back. -/
theorem dispatch_settles (hbubble : event.bubble = true) (own : DialogSet)
    (outer : List DialogSet) (h : ∀ w ∈ View.outwardFrom own outer, w.Attentive event s.turn)
    (hs : Stack.level? outer.length s.turn.shape = some (f :: rest)) :
    Eval.Settles (fun fuel => dispatch (call fuel) event own outer) s
      (Eval.Offers event
        (Chance.round (View.listeners s.turn (View.outwardFrom own outer))) s) := by
  induction outer generalizing own s f rest with
  | nil =>
    let v : View := { own }
    obtain ⟨d, hd, hlistener, hbefore, hafter⟩ :=
      exists_listener (v := v) (h v (List.mem_singleton_self v)) hs
    have hround : Chance.round (View.listeners s.turn (View.outwardFrom own [])) =
        .before v d :: ([] ++ [.after v d]) := by
      simp [View.outwardFrom, View.listeners, hlistener, Chance.round, v]
    rw [hround]
    exact offer_settles (v := v) hs hd hbefore hafter fun s₁ _ => pure_offers s₁
  | cons next outer ih =>
    let v : View := { own, outer := next :: outer }
    obtain ⟨d, hd, hlistener, hbefore, hafter⟩ :=
      exists_listener (v := v) (h v List.mem_cons_self) hs
    have hround : Chance.round (View.listeners s.turn (View.outwardFrom own (next :: outer))) =
        .before v d :: (Chance.round (View.listeners s.turn (View.outwardFrom next outer)) ++
          [.after v d]) := by
      rw [← Chance.round_cons, View.outwardFrom, View.listeners,
        List.filterMap_cons_some (b := (v, d)) (by simp [v, hlistener])]
      rfl
    rw [hround]
    simp only [dispatch, hbubble, if_true]
    refine offer_settles (v := v) hs hd hbefore hafter fun s₁ hshape => ?_
    obtain ⟨g, below, houter⟩ := Stack.level?_outside hs (Nat.lt_succ_self outer.length)
    rw [← hshape] at houter
    have hround' := ih (s := s₁) next
      (fun w hw => (h w (List.mem_cons_of_mem v hw)).of_shape hshape) houter
    rwa [View.listeners_of_shape hshape] at hround'

theorem emit_eq_dispatch (caller : Caller) (v : View) (event : Event) (fromLeaf : Bool)
    (s : Session) : emit caller v event fromLeaf s =
      dispatch caller event (v.origin s.turn fromLeaf).own (v.origin s.turn fromLeaf).outer s := rfl

theorem isSome_active?_origin (v : View) (t : Turn) (fromLeaf : Bool) :
    (t.active? (v.origin t fromLeaf).level).isSome = (t.active? v.level).isSome := by
  cases fromLeaf with
  | true => exact (v.leaf_deepest t).2.1
  | false => rfl

theorem emit_settles_round {fromLeaf : Bool} {origin : View}
    (horigin : v.origin s.turn fromLeaf = origin)
    (h : ∀ w ∈ origin.reached event, w.Attentive event s.turn)
    (hactive : (s.turn.active? v.level).isSome) :
    Eval.Settles (fun fuel => emit (call fuel) v event fromLeaf) s
      (Eval.Offers event (Chance.round (View.listeners s.turn (origin.reached event))) s) := by
  have hsome : (s.turn.active? origin.level).isSome := by
    rw [← horigin, isSome_active?_origin, hactive]
  obtain ⟨f, hf⟩ := Option.isSome_iff_exists.mp hsome
  obtain ⟨rest, hu⟩ := Turn.stackAt?_of_active? hf
  have hs := Turn.level?_shape_of_stackAt? hu
  refine Eval.settles_congr (fun fuel => emit_eq_dispatch (call fuel) v event fromLeaf s) ?_
  rw [horigin]
  unfold View.reached at h ⊢
  cases hbubble : event.bubble with
  | true =>
    rw [hbubble] at h
    exact dispatch_settles hbubble origin.own origin.outer h hs
  | false =>
    rw [hbubble] at h
    exact dispatch_settles_here hbubble (h origin (List.mem_singleton_self origin)) hs

/-- The way into the deepest running context is the only one, it has an end, and a frame is
active there if one is where it starts. An event is emitted from there, or from where it is,
and the levels from there out to the root occur once each. If the dialogs active on them are
registered and do no harm when asked, then an event that bubbles is offered to all of them,
one on each level, from the inside out and then from the outside in, until one handles it;
and one that does not bubble is offered twice to the first alone. Whether it was handled is
the answer. From a context where no frame is active it is offered to nobody. -/
theorem emit_offers (v : View) (event : Event) (fromLeaf : Bool) (s : Session)
    (h : ∀ w ∈ (v.origin s.turn fromLeaf).reached event, w.Attentive event s.turn) :
    let views := (v.origin s.turn fromLeaf).reached event
    (Relation.ReflTransGen (View.Descends s.turn) v (v.leaf s.turn) ∧
      (∀ w, ¬ (v.leaf s.turn).Descends s.turn w) ∧
      Acc (fun w w' => View.Descends s.turn w' w) v ∧
      (s.turn.active? (v.leaf s.turn).level).isSome = (s.turn.active? v.level).isSome) ∧
    (v.origin s.turn fromLeaf).outward.map View.level =
      (List.range ((v.origin s.turn fromLeaf).level + 1)).reverse ∧
    ((s.turn.active? v.level).isSome →
      (View.listeners s.turn views).map Prod.fst = views ∧
      ∃ n handled s' entries,
        (∀ fuel ≥ n, emit (call fuel) v event fromLeaf s = some (.ok handled, s')) ∧
        s'.turn.shape = s.turn.shape ∧ s'.journal = s.journal ++ entries ∧
        Asked event s.turn.shape (Chance.round (View.listeners s.turn views)) handled entries) ∧
    (s.turn.active? v.level = none →
      ∀ fuel, emit (call fuel) v event fromLeaf s = some (.ok false, s)) := by
  intro views
  obtain ⟨hreach, hactive, hdeepest⟩ := v.leaf_deepest s.turn
  refine ⟨⟨hreach, hdeepest, v.descends_terminates s.turn, hactive⟩,
    View.levels_outward _, fun hsome => ⟨?_, ?_⟩, fun hidle fuel => ?_⟩
  · refine View.listeners_reached h ?_
    rw [isSome_active?_origin, hsome]
  · obtain ⟨n, _, s', hemit, handled, entries, rfl, hshape, hjournal, hasked⟩ :=
      emit_settles_round rfl h hsome
    exact ⟨n, handled, s', entries, hemit, hshape, hjournal, hasked⟩
  · have hnone : s.turn.active? (v.origin s.turn fromLeaf).level = none := by
      have hsame := isSome_active?_origin v s.turn fromLeaf
      rw [hidle] at hsame
      exact Option.not_isSome_iff_eq_none.mp (by simp [hsame])
    rw [emit_eq_dispatch]
    exact dispatch_idle hnone

/-! ## A counter that is not asked -/

theorem counter_attentive (event : Event) (orders : Stack)
    (h : orders = [] ∨ orders = [.owning "size"]) :
    ∀ w ∈ View.counter.outward, w.Attentive event (Session.attended orders).turn := by
  have hcounter : (View.counter.atLevel 0).Attentive event (Session.attended orders).turn := by
    intro f hf
    obtain rfl := Option.some.inj hf
    exact ⟨_, rfl, Dialog.harmless_of_pure rfl _, Dialog.harmless_of_pure rfl _⟩
  intro w hw
  rcases List.mem_cons.mp hw with rfl | hw
  · intro f hf
    rcases h with rfl | rfl
    · cases hf
    · obtain rfl := Option.some.inj hf
      exact ⟨_, rfl, Dialog.harmless_of_pure rfl _, Dialog.harmless_of_pure rfl _⟩
  · obtain rfl := List.mem_singleton.mp hw
    exact hcounter

/-- Emitted at the root, the event starts at the order on the counter. -/
theorem emit_offers_order :
    let s := Session.attended [.owning "size"]
    let event : Event := { name := "stop", bubble := true }
    ∃ n handled s' entries,
      (∀ fuel ≥ n, emit (call fuel) (View.counter.atLevel 0) event true s =
        some (.ok handled, s')) ∧
      ∃ size counter, View.counter.find? "size" = some size ∧
        View.counter.find? "counter" = some counter ∧
        Asked event s.turn.shape
          [.before .counter size, .before (View.counter.atLevel 0) counter,
            .after (View.counter.atLevel 0) counter, .after .counter size] handled entries := by
  intro s event
  obtain ⟨-, -, hoffers, -⟩ := emit_offers (View.counter.atLevel 0) event true s
    (counter_attentive event _ (.inr rfl))
  obtain ⟨-, n, handled, s', entries, hemit, -, -, hasked⟩ := hoffers rfl
  exact ⟨n, handled, s', entries, hemit, _, _, rfl, rfl, hasked⟩

/-- An event that is emitted in the context of the orders while there are none is not offered
to the counter, which is active around that context and would handle it. -/
theorem emit_unheard :
    let s := Session.attended []
    let event : Event := { name := "stop", bubble := true }
    let views := (View.counter.origin s.turn true).reached event
    (∀ w ∈ views, w.Attentive event s.turn) ∧ View.listeners s.turn views ≠ [] ∧
    ¬ ∃ n handled s' entries,
      (∀ fuel ≥ n, emit (call fuel) .counter event true s = some (.ok handled, s')) ∧
      s'.journal = s.journal ++ entries ∧
      Asked event s.turn.shape (Chance.round (View.listeners s.turn views)) handled entries := by
  intro s event views
  refine ⟨counter_attentive event _ (.inl rfl), ?_, ?_⟩
  · exact List.cons_ne_nil _ _
  · rintro ⟨n, handled, s', entries, hemit, hjournal, hasked⟩
    have hnone : s.turn.active? View.counter.level = none := rfl
    have hidle : emit (call n) .counter event true s = some (.ok false, s) := by
      change dispatch (call n) event View.counter.own View.counter.outer s = _
      exact dispatch_idle hnone
    rw [hemit n (Nat.le_refl n)] at hidle
    obtain ⟨hhandled, rfl⟩ := Prod.mk.inj (Option.some.inj hidle)
    obtain rfl : handled = false := Except.ok.inj hhandled
    obtain rfl : entries = [] := by simpa using hjournal
    cases hasked

end Engine
end Colloquy
