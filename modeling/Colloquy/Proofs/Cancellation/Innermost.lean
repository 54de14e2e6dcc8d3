import Colloquy.Proofs.Cancellation.Run

/-!
# The innermost frame

Which frame goes first when a cancellation starts, and whether it is offered the event
before, depends on where the cancellation starts. The active frame of the context's own
stack is ended without being asked. Where that stack is empty, the innermost frame
belongs to an enclosing stack, and like every frame further out it may stay.
-/
namespace Colloquy

/-- A frame is the innermost one up to a level: it is active where it is, and the stacks
further in are empty or gone. -/
structure Turn.Innermost (t : Turn) (n level : Nat) (f : Frame) : Prop where
  le : level ≤ n
  active : ∃ rest, Stack.level? level t.shape = some (f :: rest)
  empty : ∀ k, level < k → k ≤ n → t.depth k = 0

namespace Stack

theorem lineup_nil (n : Nat) : lineup n [] = [] := by
  induction n with
  | zero => rfl
  | succ n ih => rw [lineup_succ rfl, ih]

/-- Where some stack of a chain has a frame, so has its lineup. -/
theorem lineup_ne_nil {n : Nat} {s u : Stack} (hu : u ∈ chain n s) (hframes : u ≠ []) :
    lineup n (bare s) ≠ [] := by
  intro hempty
  have hs : bare s = [] := lineup_injective (hempty.trans (lineup_nil n).symm)
  obtain rfl := bare_eq_nil.mp hs
  cases n <;> exact hframes (List.mem_singleton.mp hu)

end Stack

theorem Turn.innermost_of_lineup {t : Turn} {n level : Nat} {f : Frame}
    {rest : List (Nat × Frame)} (h : Stack.lineup n t.shape = (level, f) :: rest) :
    t.Innermost n level f := by
  induction n with
  | zero =>
    cases hstack : t.shape with
    | nil => simp [hstack, Stack.lineup] at h
    | cons g below =>
      obtain ⟨⟨rfl, rfl⟩, -⟩ : (0 = level ∧ g = f) ∧ _ := by
        simpa [hstack, Stack.lineup] using h
      exact ⟨Nat.le_refl 0, ⟨below, by rw [hstack]; rfl⟩, fun k hk hle => by omega⟩
  | succ n ih =>
    cases hframes : (Stack.level? (n + 1) t.shape).getD [] with
    | nil =>
      rw [Stack.lineup_succ hframes] at h
      have houter := ih h
      refine ⟨Nat.le_succ_of_le houter.le, houter.active, fun k hk hle => ?_⟩
      by_cases hlast : k = n + 1
      · rw [hlast]
        exact Engine.depth_eq_zero hframes
      · exact houter.empty k hk (by omega)
    | cons g below =>
      have hlevel : Stack.level? (n + 1) t.shape = some (g :: below) := by
        cases hstack : Stack.level? (n + 1) t.shape with
        | none => simp [hstack] at hframes
        | some u => simpa [hstack] using hframes
      have hfirst := (Stack.lineup_eq_cons hlevel).symm.trans h
      obtain ⟨rfl, rfl⟩ := Prod.mk.inj (List.cons.inj hfirst).1
      exact ⟨Nat.le_refl _, ⟨below, hlevel⟩, fun k hk hle => by omega⟩

/-- A frame that a cancellation can take off: nothing is registered for it, or its dialog's
hooks do no harm, or its dialog is a component that hosts such frames. -/
inductive Removable (event : Event) : View → Frame → Prop
  | unknown {v : View} {f : Frame} (hd : v.find? f.id = none) : Removable event v f
  | plain {v : View} {f : Frame} {d : Dialog} (hd : v.find? f.id = some d)
      (hbefore : d.Harmless v (.before event)) (hafter : d.Harmless v (.after event))
      (hclose : d.Harmless v (.close .cancelled)) : Removable event v f
  | component {v : View} {f : Frame} {d : Dialog} {hosted : DialogSet}
      (hd : v.find? f.id = some d) (hbefore : d.Harmless v (.before event))
      (hafter : d.Harmless v (.after event)) (hset : d.children = some hosted)
      (hclose : d.onClose = Component.close)
      (hframes : ∀ g ∈ f.children, Removable event (v.enter hosted) g) : Removable event v f

/-- The entries for offering an event to a frame, if anything is registered for it. -/
inductive Tried (event : Event) (v : View) (f : Frame) (rest : List (Nat × Frame)) :
    Bool → List Entry → Prop
  | unknown (hd : v.find? f.id = none) : Tried event v f rest false []
  | offered {handled : Bool} {entries : List Entry}
      (hoffer : Offered event v f rest handled entries) : Tried event v f rest handled entries

/-- The entries for the end of a frame by a cancellation: its dialog, if there is one, is
told once, while the frame is active and first in the lineup, before the rest. -/
inductive Removed (v : View) (f : Frame) (rest : List (Nat × Frame)) : List Entry → Prop
  | unknown (hd : v.find? f.id = none) : Removed v f rest []
  | told {d : Dialog} {turn : Turn} {during : List Entry} (hd : v.find? f.id = some d)
      (hturn : Stack.lineup v.level turn.shape = (v.level, f) :: rest) :
      Removed v f rest [.called (.of v d turn (.close .cancelled)) (.ok ()) during]

/-- The entries of a cancellation that offers the event to each frame of a lineup before
it takes it off, until one handles it, and what of the lineup is left. -/
inductive Sweeps (event : Event) (v : View) :
    List (Nat × Frame) → List Entry → List (Nat × Frame) → Prop
  | done : Sweeps event v [] [] []
  | kept {level : Nat} {f : Frame} {rest : List (Nat × Frame)} {entries : List Entry}
      (hoffer : Tried event (v.atLevel level) f rest true entries) :
      Sweeps event v ((level, f) :: rest) entries ((level, f) :: rest)
  | ended {level : Nat} {f : Frame} {rest remaining : List (Nat × Frame)}
      {offers ending more : List Entry}
      (hoffer : Tried event (v.atLevel level) f rest false offers)
      (hend : Removed (v.atLevel level) f rest ending)
      (hrest : Sweeps event v rest more remaining) :
      Sweeps event v ((level, f) :: rest) (offers ++ ending ++ more) remaining

theorem Sweeps.suffix {event : Event} {v : View} {lineup remaining : List (Nat × Frame)}
    {entries : List Entry} (h : Sweeps event v lineup entries remaining) :
    remaining <:+ lineup := by
  induction h with
  | done => exact List.suffix_refl _
  | kept => exact List.suffix_refl _
  | @ended level f rest _ _ _ _ _ _ _ ih => exact ih.trans (List.suffix_cons (level, f) rest)

namespace Engine
variable {v top : View} {d : Dialog} {s s' : Session} {f : Frame} {rest : Stack} {event : Event}

/-! ## A single frame -/

/-- Nobody answers for a frame whose id means nothing. -/
theorem emit_unknown (caller : Caller) (hbubble : event.bubble = false)
    (hs : Stack.level? v.level s.turn.shape = some (f :: rest)) (hd : v.find? f.id = none) :
    emit caller v event false s = some (.ok false, s) := by
  obtain ⟨g, hg, hbare⟩ := Turn.active?_of_shape hs
  have hgd : v.find? g.id = none := by rw [← hd, ← hbare, Frame.bare_id]
  simp only [emit_eq_offer caller v hbubble, offer, Eval.bind_apply, Eval.turn, hg, hgd]
  rfl

theorem emit_tried (hbubble : event.bubble = false) (hremovable : Removable event v f)
    (hs : Stack.level? v.level s.turn.shape = some (f :: rest)) :
    ∃ n handled s' entries,
      (∀ fuel ≥ n, emit (call fuel) v event false s = some (.ok handled, s')) ∧
      s'.turn.shape = s.turn.shape ∧ s'.journal = s.journal ++ entries ∧
      Tried event v f (Stack.lineup v.level (Stack.put v.level rest s.turn.shape))
        handled entries := by
  cases hremovable with
  | unknown hd =>
    have hemit (fuel : Nat) := emit_unknown (call fuel) hbubble hs hd
    exact ⟨0, false, s, [], fun fuel _ => hemit fuel, rfl, by simp, .unknown hd⟩
  | plain hd hbefore hafter | component hd hbefore hafter =>
    obtain ⟨n, handled, s₁, entries, hemit, hshape, hjournal, hoffered⟩ :=
      emit_settles hbubble hbefore hafter hs hd
    exact ⟨n, handled, s₁, entries, hemit, hshape, hjournal, .offered hoffered⟩

/-- Ending the frame while it is active pops it and tells its dialog, if there is one. -/
def Goes (v : View) (f : Frame) : Prop :=
  ∀ s rest, Stack.level? v.level s.turn.shape = some (f :: rest) → ∃ n s' entries,
    (∀ fuel ≥ n, endActive (call fuel) v .cancelled none s = some (.ok (), s')) ∧
    s'.turn.shape = Stack.put v.level rest s.turn.shape ∧ s'.journal = s.journal ++ entries ∧
    Removed v f (Stack.lineup v.level (Stack.put v.level rest s.turn.shape)) entries

theorem goes_unknown (hd : v.find? f.id = none) : Goes v f := by
  intro s rest hs
  exact ⟨0, _, [], fun fuel _ => endActive_unknown hs hd, Turn.shape_pop hs, by simp, .unknown hd⟩

theorem goes_plain (hd : v.find? f.id = some d) (hclose : d.Harmless v (.close .cancelled)) :
    Goes v f := by
  intro s rest hs
  obtain ⟨n, s₁, during, hend, hpop, hjournal⟩ :=
    endActive_harmless hd hclose (writeOutput_none v d) hs
  exact ⟨n, s₁, _, hend, hpop, hjournal, .told hd (Stack.lineup_eq_cons hs)⟩

theorem clear_goes {frames : Stack} (h : ∀ g ∈ frames, Goes v g)
    (hs : Stack.level? v.level s.turn.shape = some frames) : ∃ n s',
      (∀ fuel ≥ n, ∀ bound ≥ n,
        clear (call fuel) v .cancelled bound s = some (.ok (), s')) ∧
      s'.turn.shape = Stack.put v.level [] s.turn.shape := by
  induction frames generalizing s with
  | nil =>
    exact ⟨1, s, clear_empty hs, (Stack.put_self hs).symm⟩
  | cons f below ih =>
    obtain ⟨n, s₁, -, hend, hshape, -⟩ := h f List.mem_cons_self s below hs
    have hs₁ : Stack.level? v.level s₁.turn.shape = some below := by
      rw [hshape]
      exact Stack.level?_put hs below
    obtain ⟨m, s₂, hclear, hshape'⟩ := ih (fun g hg => h g (List.mem_cons_of_mem f hg)) hs₁
    refine ⟨max n m + 1, s₂, clear_first hs hend hclear, ?_⟩
    rw [hshape', hshape, Stack.put_put]

theorem goes_component {hosted : DialogSet} (hd : v.find? f.id = some d)
    (hset : d.children = some hosted) (hclose : d.onClose = Component.close)
    (hframes : ∀ g ∈ f.children, Goes (v.enter hosted) g) : Goes v f := by
  intro s rest hs
  obtain ⟨n, s₁, hclear, hshape⟩ :=
    clear_goes (s := { s with journal := [] }) hframes (Stack.level?_succ hs)
  obtain ⟨s₂, hend, hpop, hjournal⟩ := endActive_component hs hd hset hclose hclear hshape
  exact ⟨n + 1, s₂, _, hend, hpop, hjournal, .told hd (Stack.lineup_eq_cons hs)⟩

/-- A frame that can be taken off goes when it is ended. -/
theorem goes_of_removable (h : Removable event v f) : Goes v f := by
  induction h with
  | unknown hd => exact goes_unknown hd
  | plain hd _ _ hclose => exact goes_plain hd hclose
  | component hd _ _ hset hclose _ ih => exact goes_component hd hset hclose ih

/-! ## The whole lineup -/

/-- The frames of a lineup can be taken off, each seen from its own level. -/
def AllRemovable (event : Event) (v : View) (lineup : List (Nat × Frame)) : Prop :=
  ∀ level f, (level, f) ∈ lineup → Removable event (v.atLevel level) f

theorem outward_round (hbubble : event.bubble = false) (htop : top.atLevel v.level = v)
    (hremovable : Removable event v f)
    (hs : Stack.level? v.level s.turn.shape = some (f :: rest))
    (hafter : ∀ s₂ : Session, s₂.turn.shape = Stack.put v.level rest s.turn.shape →
      Outward event (Sweeps event top) v s₂) : Outward event (Sweeps event top) v s := by
  have hlineup := Stack.lineup_eq_cons hs
  obtain ⟨n, handled, s₁, offers, hemit, hshape, hjournal, htried⟩ :=
    emit_tried hbubble hremovable hs
  cases handled with
  | true =>
    refine outward_kept hs hemit hshape hjournal ?_
    rw [hlineup]
    exact .kept (htop.symm ▸ htried)
  | false =>
    have hs₁ : Stack.level? v.level s₁.turn.shape = some (f :: rest) := by rw [hshape, hs]
    obtain ⟨m, s₂, ending, hend, hshape', hjournal', hremoved⟩ :=
      goes_of_removable hremovable s₁ rest hs₁
    rw [hshape] at hshape' hremoved
    have hentries : s₂.journal = s.journal ++ (offers ++ ending) := by
      rw [hjournal', hjournal, List.append_assoc]
    refine outward_ended hs hemit hend hentries (hafter s₂ hshape') fun more remaining hmore => ?_
    rw [hshape'] at hmore
    rw [hlineup]
    exact .ended (htop.symm ▸ htried) (htop.symm ▸ hremoved) hmore

theorem outward_sweeps (hbubble : event.bubble = false) (hv : v.sets <:+ top.sets)
    (hremovable : AllRemovable event top (Stack.lineup v.level s.turn.shape)) :
    Outward event (Sweeps event top) v s := by
  induction v, s using outward_induction with
  | hstop v s hframes hparent => exact outward_stop hframes hparent .done
  | hclimb v p s hframes hparent ih =>
    have hp := (View.sets_parent?_suffix hparent).trans hv
    exact outward_climb hframes hparent (ih hp (lineup_parent hframes hparent ▸ hremovable))
  | hround v s f rest hs ih =>
    have htop : top.atLevel v.level = v := View.atLevel_of_suffix hv
    obtain ⟨hfirst, hrest⟩ := (Stack.forall_lineup hs).mp hremovable
    exact outward_round hbubble htop (htop ▸ hfirst) hs fun s₂ hshape =>
      ih s₂ hshape hv (hshape ▸ hrest)

/-- From a context with frames of its own, the active one is ended first, unasked. -/
theorem cancelAll_own {name : String} {value : Option Json}
    (hs : Stack.level? v.level s.turn.shape = some (f :: rest))
    (hremovable : AllRemovable { name, value } v (Stack.lineup v.level s.turn.shape)) :
    ∃ n s' ending more remaining,
      (∀ fuel ≥ n, cancelAll (call fuel) v name value fuel s = some (.ok .cancelled, s')) ∧
      s'.journal = s.journal ++ (ending ++ more) ∧ Stack.Remains remaining s'.turn.shape ∧
      Removed v f (Stack.lineup v.level (Stack.put v.level rest s.turn.shape)) ending ∧
      Sweeps { name, value } v (Stack.lineup v.level (Stack.put v.level rest s.turn.shape)) more
        remaining := by
  have htop : v.atLevel v.level = v := View.atLevel_of_suffix (List.suffix_refl _)
  obtain ⟨hfirst, houter⟩ := (Stack.forall_lineup hs).mp hremovable
  rw [htop] at hfirst
  obtain ⟨n, s₁, ending, hend, hshape, hjournal, hremoved⟩ := goes_of_removable hfirst s rest hs
  obtain ⟨m, s₂, more, remaining, hrest, hjournal', hremains, hsweeps⟩ :=
    outward_sweeps (s := s₁) rfl (List.suffix_refl v.sets) (hshape ▸ houter)
  refine ⟨max n m + 1, s₂, ending, more, remaining, cancelAll_first hs hend hrest, ?_, hremains,
    hremoved, hshape ▸ hsweeps⟩
  rw [hjournal', hjournal, List.append_assoc]

/-- From a context without frames of its own, all frames are asked, the first one too. -/
theorem cancelAll_outer {name : String} {value : Option Json}
    (hchain : ¬ (s.turn.chain v.level).all List.isEmpty = true)
    (hframes : (Stack.level? v.level s.turn.shape).getD [] = []) {p : View}
    (hparent : v.parent? = some p)
    (hremovable : AllRemovable { name, value } v (Stack.lineup v.level s.turn.shape)) :
    ∃ n s' entries remaining,
      (∀ fuel ≥ n, cancelAll (call fuel) v name value fuel s = some (.ok .cancelled, s')) ∧
      s'.journal = s.journal ++ entries ∧ Stack.Remains remaining s'.turn.shape ∧
      Sweeps { name, value } v (Stack.lineup v.level s.turn.shape) entries remaining := by
  have hlineup := lineup_parent hframes hparent
  have houtward : Outward { name, value } (Sweeps { name, value } v) p s :=
    outward_sweeps rfl (View.sets_parent?_suffix hparent) (hlineup ▸ hremovable)
  obtain ⟨n, s', entries, remaining, hrest, hjournal, hremains, hsweeps⟩ := houtward
  refine ⟨n + 1, s', entries, remaining, fun fuel hfuel => ?_, hjournal, hremains,
    hlineup ▸ hsweeps⟩
  obtain ⟨fuel, rfl⟩ := Nat.exists_eq_add_one.mpr (Nat.zero_lt_of_lt hfuel)
  apply cancelAll_eq hchain
  rw [cancelOutward_climb (depth_eq_zero hframes) hparent]
  exact hrest (fuel + 1) (by omega) fuel (by omega)

/-- A cancellation from a context in whose chain there are frames comes to its end as
cancelled, if the hooks that it calls do no harm. The innermost frame of the chain is
ended first and is not offered the event, if it is one of the context's own stack. If that
stack is empty, the innermost frame is offered the event like all others, and stays where
it handles it. -/
theorem cancelAll_innermost (v : View) (name : String) (value : Option Json) (s : Session)
    (hchain : ∃ u ∈ s.turn.chain v.level, u ≠ [])
    (hremovable : AllRemovable { name, value } v (Stack.lineup v.level s.turn.shape)) :
    ∃ level f rest n s' entries remaining,
      Stack.lineup v.level s.turn.shape = (level, f) :: rest ∧ s.turn.Innermost v.level level f ∧
      (∀ fuel ≥ n, cancelAll (call fuel) v name value fuel s = some (.ok .cancelled, s')) ∧
      s'.journal = s.journal ++ entries ∧ Stack.Remains remaining s'.turn.shape ∧
      (level = v.level → remaining <:+ rest ∧ ∃ ending more, entries = ending ++ more ∧
        Removed v f rest ending ∧ Sweeps { name, value } v rest more remaining) ∧
      (level < v.level → Sweeps { name, value } v ((level, f) :: rest) entries remaining) := by
  obtain ⟨u, hu, hframes⟩ := hchain
  have hne := Stack.lineup_ne_nil hu hframes
  have hall : ¬ (s.turn.chain v.level).all List.isEmpty = true := by
    intro hempty
    exact hframes (List.isEmpty_iff.mp (List.all_eq_true.mp hempty u hu))
  obtain ⟨⟨level, f⟩, rest, hlineup⟩ := List.exists_cons_of_ne_nil hne
  have hinnermost := Turn.innermost_of_lineup hlineup
  obtain ⟨below, hactive⟩ := hinnermost.active
  by_cases hown : level = v.level
  · have hs : Stack.level? v.level s.turn.shape = some (f :: below) := hown ▸ hactive
    have hrest : rest = Stack.lineup v.level (Stack.put v.level below s.turn.shape) :=
      (List.cons.inj (hlineup.symm.trans (Stack.lineup_eq_cons hs))).2
    obtain ⟨n, s', ending, more, remaining, hcancel, hjournal, hremains, hremoved, hsweeps⟩ :=
      cancelAll_own hs hremovable
    rw [← hrest] at hremoved hsweeps
    exact ⟨level, f, rest, n, s', ending ++ more, remaining, hlineup, hinnermost, hcancel,
      hjournal, hremains,
      fun _ => ⟨hsweeps.suffix, ending, more, rfl, hremoved, hsweeps⟩, fun hlt => by omega⟩
  · have hlt : level < v.level := Nat.lt_of_le_of_ne hinnermost.le hown
    have hempty : (Stack.level? v.level s.turn.shape).getD [] = [] := by
      have hdepth := hinnermost.empty v.level hlt (Nat.le_refl _)
      cases hlevel : Stack.level? v.level s.turn.shape with
      | none => rfl
      | some w =>
        rw [Turn.depth_of_shape hlevel] at hdepth
        exact List.eq_nil_of_length_eq_zero hdepth
    cases hparent : v.parent? with
    | none =>
      have hzero := View.level_eq_zero hparent
      omega
    | some p =>
      obtain ⟨n, s', entries, remaining, hcancel, hjournal, hremains, hsweeps⟩ :=
        cancelAll_outer hall hempty hparent hremovable
      exact ⟨level, f, rest, n, s', entries, remaining, hlineup, hinnermost, hcancel, hjournal,
        hremains, fun heq => absurd heq hown, fun _ => hlineup ▸ hsweeps⟩

end Engine

/-! ## A counter that hears everything -/

/-- A counter takes orders, and handles every event. -/
def View.counter : View :=
  let orders : DialogSet := Table.empty.insert "size" (.standing "size" false)
  { own := orders
    outer := [Table.empty.insert "counter"
      { Dialog.standing "counter" true with children := some orders }] }

/-- The counter over a frame that nothing is registered for. -/
def Session.attended (orders : Stack) : Session :=
  { turn :=
    { activity := .message "c" "stop"
      stack := [{ id := "counter", children := orders }, .owning "closed"] } }

theorem Dialog.removable_standing {v : View} {f : Frame} {id : String} {handles : Bool}
    {hosted : Option DialogSet} (event : Event)
    (hd : v.find? f.id = some { standing id handles with children := hosted }) :
    Removable event v f :=
  .plain hd (harmless_of_pure rfl v) (harmless_of_pure rfl v) (harmless_of_pure rfl v)

namespace Engine

theorem counter_removable (event : Event) (orders : Stack)
    (h : orders = [] ∨ orders = [.owning "size"]) : AllRemovable event .counter
      (Stack.lineup View.counter.level (Session.attended orders).turn.shape) := by
  have hcounter : Removable event (View.counter.atLevel 0) { id := "counter" } :=
    Dialog.removable_standing event rfl
  have hclosed : Removable event (View.counter.atLevel 0) { id := "closed" } := .unknown rfl
  have hsize : Removable event (View.counter.atLevel 1) { id := "size" } :=
    @Dialog.removable_standing _ _ "size" false none event rfl
  intro level f hmem
  rcases h with rfl | rfl
  · have hlineup : Stack.lineup View.counter.level (Session.attended []).turn.shape =
        [(0, { id := "counter" }), (0, { id := "closed" })] := rfl
    simp only [hlineup, List.mem_cons, Prod.mk.injEq, List.not_mem_nil, or_false] at hmem
    rcases hmem with ⟨rfl, rfl⟩ | ⟨rfl, rfl⟩
    · exact hcounter
    · exact hclosed
  · have hlineup : Stack.lineup View.counter.level
        (Session.attended [.owning "size"]).turn.shape =
        [(1, { id := "size" }), (0, { id := "counter" }), (0, { id := "closed" })] := rfl
    simp only [hlineup, List.mem_cons, Prod.mk.injEq, List.not_mem_nil, or_false] at hmem
    rcases hmem with ⟨rfl, rfl⟩ | ⟨rfl, rfl⟩ | ⟨rfl, rfl⟩
    · exact hsize
    · exact hcounter
    · exact hclosed

/-- An order on the counter goes, whatever the counter answers. -/
theorem cancelAll_innermost_order : ∃ n s' remaining,
    (∀ fuel ≥ n, cancelAll (call fuel) .counter "stop" none fuel (.attended [.owning "size"]) =
      some (.ok .cancelled, s')) ∧
    Stack.Remains remaining s'.turn.shape ∧
    remaining <:+ [(0, { id := "counter" }), (0, { id := "closed" })] := by
  obtain ⟨level, f, rest, n, s', entries, remaining, hlineup, -, hcancel, -, hremains, hown, -⟩ :=
    cancelAll_innermost .counter "stop" none (.attended [.owning "size"])
      ⟨_, List.mem_cons_self, List.cons_ne_nil _ _⟩ (counter_removable _ _ (.inr rfl))
  have horder : Stack.lineup View.counter.level (Session.attended [.owning "size"]).turn.shape =
      [(1, { id := "size" }), (0, { id := "counter" }), (0, { id := "closed" })] := rfl
  rw [horder] at hlineup
  obtain ⟨hfirst, rfl⟩ := List.cons.inj hlineup
  obtain ⟨rfl, rfl⟩ := Prod.mk.inj hfirst
  exact ⟨n, s', remaining, hcancel, hremains, (hown rfl).1⟩

/-- Without an order on it the counter is the innermost frame. It is offered the event and
stays, so that nothing is taken off. -/
theorem cancelAll_keeps_counter :
    let s := Session.attended []
    let offer := HookCall.mk "counter" false 0 s.turn (.before { name := "stop" })
    AllRemovable { name := "stop" } .counter (Stack.lineup View.counter.level s.turn.shape) ∧
    s.turn.Innermost View.counter.level 0 { id := "counter" } ∧
    ∀ fuel ≥ 3, cancelAll (call fuel) .counter "stop" none fuel s =
      some (.ok .cancelled, { s with journal := [.called offer (.ok true) []] }) := by
  intro s offer
  have hlineup : Stack.lineup View.counter.level s.turn.shape =
      [(0, { id := "counter" }), (0, { id := "closed" })] := rfl
  have hinnermost := Turn.innermost_of_lineup hlineup
  refine ⟨counter_removable _ _ (.inl rfl), hinnermost, fun fuel hfuel => ?_⟩
  obtain ⟨fuel, rfl⟩ := Nat.exists_eq_add_of_le' hfuel
  rfl

end Engine
end Colloquy
