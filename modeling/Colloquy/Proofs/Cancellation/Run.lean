import Colloquy.Dialog.Component
import Colloquy.Proofs.Cancellation.Lineup
import Colloquy.Proofs.Engine.Fuel

/-!
# A whole cancellation

Where the hooks that a cancellation calls do no harm, it comes to its end and does what
the lineup of its context says. The fuel that it takes follows from what the hooks take
and from the frames that are there.
-/
namespace Colloquy

/-- A view further out is that of its level. -/
theorem View.atLevel_of_suffix {v top : View} (h : v.sets <:+ top.sets) :
    top.atLevel v.level = v := by
  obtain ⟨inner, hinner⟩ := h
  have hlength := congrArg List.length hinner
  simp only [View.sets, List.length_append, List.length_cons] at hlength
  have hdrop : top.sets.drop (top.level - v.level) = v.own :: v.outer := by
    have hskip : top.level - v.level = inner.length := by
      simp only [View.level]
      omega
    rw [← hinner, hskip, List.drop_left]
    rfl
  simp only [View.atLevel, hdrop]

namespace Dialog

/-- Called while a frame of the dialog is active, the hook answers and starts, ends and
moves nothing. -/
def Harmless (v : View) (d : Dialog) (hook : Hook) : Prop :=
  ∀ s f, s.turn.active? v.level = some f → v.find? f.id = some d →
    ∃ fuel answer s', Engine.call fuel v d hook s = some (.ok answer, s') ∧
      s'.turn.shape = s.turn.shape

/-- A dialog whose hooks do no harm to a cancellation: a container ends as components do. -/
structure Cancellable (event : Event) (v : View) (d : Dialog) : Prop where
  before : d.Harmless v (.before event)
  after : d.Harmless v (.after event)
  close : (d.children = none ∧ d.Harmless v (.close .cancelled)) ∨
    (d.children.isSome ∧ d.onClose = Component.close)

end Dialog

namespace Engine
variable {v : View} {d : Dialog} {s s' : Session} {f : Frame} {rest : Stack}

/-- A call is entered with the turn it found, its answer and what happened during it. -/
theorem call_journal {fuel : Nat} {hook : Hook} {outcome : Except Fault hook.Reply}
    (h : call fuel v d hook s = some (outcome, s')) :
    ∃ during, s'.journal = s.journal ++ [.called (.of v d s.turn hook) outcome during] := by
  cases fuel with
  | zero => cases h
  | succ fuel =>
    obtain ⟨⟨outcome', after⟩, -, heq⟩ := Option.map_eq_some_iff.mp h
    obtain ⟨rfl, rfl⟩ := Prod.mk.inj heq
    exact ⟨after.journal, rfl⟩

theorem harmless_settles {hook : Hook} (h : d.Harmless v hook)
    (hs : Stack.level? v.level s.turn.shape = some (f :: rest)) (hd : v.find? f.id = some d) :
    ∃ n answer s' during, (∀ fuel ≥ n, call fuel v d hook s = some (.ok answer, s')) ∧
      s'.turn.shape = s.turn.shape ∧
      s'.journal = s.journal ++ [.called (.of v d s.turn hook) (.ok answer) during] := by
  obtain ⟨g, hg, -, hgd⟩ := View.active?_of_shape hs hd
  obtain ⟨n, answer, s', hcall, hshape⟩ := h s g hg hgd
  obtain ⟨during, hjournal⟩ := call_journal hcall
  exact ⟨n, answer, s', during, fun fuel hfuel => call_sub hfuel v d hook s _ hcall, hshape,
    hjournal⟩

/-! ## Offering -/

/-- An event that does not bubble is offered in its context only. -/
theorem emit_eq_offer (caller : Caller) (v : View) {event : Event}
    (hbubble : event.bubble = false) :
    emit caller v event false = offer caller event v (pure false) := by
  obtain ⟨own, outer⟩ := v
  cases outer <;> simp [emit, dispatch, hbubble] <;> rfl

theorem emit_settles {event : Event} (hbubble : event.bubble = false)
    (hpre : d.Harmless v (.before event)) (hpost : d.Harmless v (.after event))
    (hs : Stack.level? v.level s.turn.shape = some (f :: rest)) (hd : v.find? f.id = some d) :
    ∃ n handled s' entries,
      (∀ fuel ≥ n, emit (call fuel) v event false s = some (.ok handled, s')) ∧
      s'.turn.shape = s.turn.shape ∧ s'.journal = s.journal ++ entries ∧
      Offered event v f (Stack.lineup v.level (Stack.put v.level rest s.turn.shape))
        handled entries := by
  obtain ⟨n, handled, s₁, during, hbefore, hshape, hjournal⟩ :=
    harmless_settles hpre hs hd
  obtain ⟨g, hg, -, hgd⟩ := View.active?_of_shape hs hd
  cases handled with
  | true =>
    refine ⟨n, true, s₁, _, fun fuel hfuel => ?_, hshape, hjournal,
      .before hd (Stack.lineup_eq_cons hs)⟩
    simp only [emit_eq_offer _ v hbubble, offer, Eval.bind_apply, Eval.turn, hg, hgd,
      hbefore fuel hfuel, if_true]
    rfl
  | false =>
    rw [← hshape] at hs
    obtain ⟨m, handled, s₂, during', hafter, hshape', hjournal'⟩ :=
      harmless_settles hpost hs hd
    refine ⟨max n m, handled, s₂, _, fun fuel hfuel => ?_, hshape'.trans hshape,
      by rw [hjournal', hjournal, List.append_assoc], ?_⟩
    · have hfirst := hbefore fuel (by omega)
      have hsecond := hafter fuel (by omega)
      simp only [emit_eq_offer _ v hbubble, offer, Eval.bind_apply, Eval.turn, hg, hgd, hfirst,
        Bool.false_eq_true, if_false]
      exact hsecond
    · have hturn' := Stack.lineup_eq_cons hs
      rw [hshape] at hturn' hs
      exact .after hd (Stack.lineup_eq_cons hs) (hshape ▸ hturn')

/-! ## Ending -/

theorem popFrame_eq {level : Nat} {u : Stack} (hu : s.turn.stackAt? level = some u) :
    popFrame level s = some (.ok u.active?, { s with turn := s.turn.pop level }) := by
  simp [popFrame, Eval.onTurn, hu]

@[simp] theorem writeOutput_none (v : View) (d : Dialog) : writeOutput v d none = pure () := by
  unfold writeOutput
  cases d.output <;> rfl

/-- Once its dialog was told, the active frame is popped. -/
theorem endActive_eq {caller : Caller} {reason : Reason} {result : Option Json} {f' : Frame}
    {below : Stack} (hs : Stack.level? v.level s.turn.shape = some (f :: rest))
    (hd : v.find? f.id = some d) (hclose : caller v d (.close reason) s = some (.ok (), s'))
    (hs' : Stack.level? v.level s'.turn.shape = some (f' :: below))
    (hwrite : writeOutput v d result = pure ()) : endActive caller v reason result s =
      some (.ok (), { s' with turn := s'.turn.pop v.level }) := by
  obtain ⟨g, hg, -, hgd⟩ := View.active?_of_shape hs hd
  obtain ⟨u, hu, -⟩ := Turn.stackAt?_of_shape hs'
  simp only [endActive, Eval.bind_apply, Eval.turn, hg, hgd, hclose, popFrame_eq hu, hwrite]
  rfl

/-- A component that is cancelled clears the stack that it hosts. -/
theorem interpret_close {caller : Caller} {fuel : Nat} {self : Dialog} {inner : View}
    (hchild : v.child? s.turn = some inner)
    (hclear : clear caller inner .cancelled fuel s = some (.ok (), s')) :
    interpret caller fuel self v (Component.close .cancelled) s = some (.ok (), s') := by
  have hbody : (interpret caller fuel self inner (Program.run (.clear .cancelled))).attempt s =
      some (.ok (.ok ()), s') := by
    simp [Program.run, interpret, perform, Eval.bind_apply, Eval.attempt, hclear, Eval.ofExcept]
  rw [Component.close, if_pos rfl]
  change interpret caller fuel self v
    ((Program.inChild (Program.run (.clear .cancelled))).bind fun _ => pure ()) s = _
  simp only [Program.inChild, Program.bind, interpret, Eval.bind_apply, Eval.turn, View.at?, hchild,
    hbody]
  rfl

theorem depth_ne_zero (hs : Stack.level? v.level s.turn.shape = some (f :: rest)) :
    s.turn.depth v.level ≠ 0 := by
  rw [Turn.depth_of_shape hs]
  exact Nat.succ_ne_zero _

theorem depth_eq_zero {level : Nat} {t : Turn}
    (h : (Stack.level? level t.shape).getD [] = []) : t.depth level = 0 := by
  cases hlevel : Stack.level? level t.shape with
  | some u =>
    obtain rfl : u = [] := by simpa [hlevel] using h
    exact Turn.depth_of_shape hlevel
  | none =>
    rw [Turn.level?_shape, Option.map_eq_none_iff] at hlevel
    simp [Turn.depth, hlevel]

/-- A frame that nothing is registered for is popped without notice. -/
theorem endActive_unknown {caller : Caller} {reason : Reason} {result : Option Json}
    (hs : Stack.level? v.level s.turn.shape = some (f :: rest)) (hd : v.find? f.id = none) :
    endActive caller v reason result s = some (.ok (), { s with turn := s.turn.pop v.level }) := by
  obtain ⟨g, hg, hbare⟩ := Turn.active?_of_shape hs
  obtain ⟨u, hu, -⟩ := Turn.stackAt?_of_shape hs
  have hgd : v.find? g.id = none := by rw [← hd, ← hbare, Frame.bare_id]
  simp only [endActive, Eval.bind_apply, Eval.turn, hg, hgd, popFrame_eq hu]
  rfl

/-- Ending the frame while it is active pops it and enters its end. -/
def EndsWell (v : View) (f : Frame) : Prop :=
  ∀ s rest, Stack.level? v.level s.turn.shape = some (f :: rest) → ∃ n s' entry,
    (∀ fuel ≥ n, endActive (call fuel) v .cancelled none s = some (.ok (), s')) ∧
    s'.turn.shape = Stack.put v.level rest s.turn.shape ∧ s'.journal = s.journal ++ [entry] ∧
    Ends v f (Stack.lineup v.level (Stack.put v.level rest s.turn.shape)) entry

theorem clear_stop {caller : Caller} {reason : Reason} {bound : Nat}
    (hdepth : s.turn.depth v.level = 0) :
    clear caller v reason (bound + 1) s = some (.ok (), s) := by
  simp only [clear, Eval.bind_apply, Eval.turn, if_pos hdepth]
  rfl

theorem clear_next {caller : Caller} {reason : Reason} {bound : Nat}
    (hdepth : s.turn.depth v.level ≠ 0)
    (hend : endActive caller v reason none s = some (.ok (), s')) :
    clear caller v reason (bound + 1) s = clear caller v reason bound s' := by
  simp only [clear, Eval.bind_apply, Eval.turn, if_neg hdepth, hend]

theorem clear_empty (hs : Stack.level? v.level s.turn.shape = some []) :
    ∀ fuel ≥ 1, ∀ bound ≥ 1, clear (call fuel) v .cancelled bound s = some (.ok (), s) := by
  intro fuel _ bound hbound
  obtain ⟨bound, rfl⟩ := Nat.exists_eq_add_one.mpr hbound
  exact clear_stop (Turn.depth_of_shape hs)

/-- With enough fuel the active frame ends, and the stack is cleared from there. -/
theorem clear_first {n m : Nat} {s'' : Session}
    (hs : Stack.level? v.level s.turn.shape = some (f :: rest))
    (hend : ∀ fuel ≥ n, endActive (call fuel) v .cancelled none s = some (.ok (), s'))
    (hrest : ∀ fuel ≥ m, ∀ bound ≥ m,
      clear (call fuel) v .cancelled bound s' = some (.ok (), s'')) :
    ∀ fuel ≥ max n m + 1, ∀ bound ≥ max n m + 1,
      clear (call fuel) v .cancelled bound s = some (.ok (), s'') := by
  intro fuel hfuel bound hbound
  obtain ⟨bound, rfl⟩ := Nat.exists_eq_add_one.mpr (Nat.zero_lt_of_lt hbound)
  rw [clear_next (depth_ne_zero hs) (hend fuel (by omega))]
  exact hrest fuel (by omega) bound (by omega)

theorem clear_settles {frames : Stack} (h : ∀ g ∈ frames, EndsWell v g)
    (hs : Stack.level? v.level s.turn.shape = some frames) : ∃ n s' entries,
      (∀ fuel ≥ n, ∀ bound ≥ n,
        clear (call fuel) v .cancelled bound s = some (.ok (), s')) ∧
      s'.turn.shape = Stack.put v.level [] s.turn.shape ∧ s'.journal = s.journal ++ entries ∧
      EndsAll v frames (Stack.lineup v.level (Stack.put v.level [] s.turn.shape)) entries := by
  induction frames generalizing s with
  | nil =>
    exact ⟨1, s, [], clear_empty hs, (Stack.put_self hs).symm, by simp, .nil⟩
  | cons f below ih =>
    obtain ⟨n, s₁, entry, hend, hshape, hjournal, hends⟩ := h f List.mem_cons_self s below hs
    have hs₁ : Stack.level? v.level s₁.turn.shape = some below := by
      rw [hshape]
      exact Stack.level?_put hs below
    obtain ⟨m, s₂, entries, hclear, hshape', hjournal', hbelow⟩ :=
      ih (fun g hg => h g (List.mem_cons_of_mem f hg)) hs₁
    rw [hshape, Stack.put_put] at hshape' hbelow
    rw [Stack.lineup_eq_append (Stack.level?_put hs below), Stack.put_put] at hends
    refine ⟨max n m + 1, s₂, entry :: entries, clear_first hs hend hclear, hshape', ?_,
      .cons hends hbelow⟩
    rw [hjournal', hjournal, List.append_assoc]
    rfl

/-- A frame whose dialog does no harm, and has nothing to write, is popped once it was told. -/
theorem endActive_harmless {reason : Reason} {result : Option Json} (hd : v.find? f.id = some d)
    (hclose : d.Harmless v (.close reason)) (hwrite : writeOutput v d result = pure ())
    (hs : Stack.level? v.level s.turn.shape = some (f :: rest)) : ∃ n s' during,
      (∀ fuel ≥ n, endActive (call fuel) v reason result s = some (.ok (), s')) ∧
      s'.turn.shape = Stack.put v.level rest s.turn.shape ∧ s'.journal = s.journal ++
        [.called (.of v d s.turn (.close reason)) (.ok ()) during] := by
  obtain ⟨n, answer, s₁, during, hcall, hshape, hjournal⟩ := harmless_settles hclose hs hd
  have hs₁ : Stack.level? v.level s₁.turn.shape = some (f :: rest) := by rw [hshape, hs]
  have hpop : (s₁.turn.pop v.level).shape = Stack.put v.level rest s.turn.shape := by
    rw [Turn.shape_pop hs₁, hshape]
    rfl
  exact ⟨n, _, during, fun fuel hfuel => endActive_eq hs hd (hcall fuel hfuel) hs₁ hwrite, hpop,
    hjournal⟩

theorem leaf_endsWell (hd : v.find? f.id = some d) (hleaf : d.children = none)
    (hclose : d.Harmless v (.close .cancelled)) : EndsWell v f := by
  intro s rest hs
  obtain ⟨n, s₁, during, hend, hpop, hjournal⟩ :=
    endActive_harmless hd hclose (writeOutput_none v d) hs
  exact ⟨n, s₁, _, hend, hpop, hjournal, .leaf hd hleaf (Stack.lineup_eq_cons hs)⟩

/-- A component that is told of its cancellation answers with its hosted stack cleared. -/
theorem call_close {fuel : Nat} {hosted : DialogSet}
    (hs : Stack.level? v.level s.turn.shape = some (f :: rest)) (hd : v.find? f.id = some d)
    (hset : d.children = some hosted) (hclose : d.onClose = Component.close)
    (hclear : clear (call fuel) (v.enter hosted) .cancelled fuel { s with journal := [] } =
      some (.ok (), s')) : call (fuel + 1) v d (.close .cancelled) s =
    some (.ok (), { s' with journal := s.journal ++
      [.called (.of v d s.turn (.close .cancelled)) (.ok ()) s'.journal] }) := by
  have hchild : v.child? s.turn = some (v.enter hosted) := by
    obtain ⟨g, hg, -, hgd⟩ := View.active?_of_shape hs hd
    simp [View.child?, hg, hgd, hset]
  have hrun : interpret (call fuel) fuel d v (Component.close .cancelled) _ = _ :=
    interpret_close (s := { s with journal := [] }) hchild hclear
  simp only [call, Eval.bind_apply, Eval.turn, Eval.entered, Dialog.program, hclose, hrun]
  rfl

/-- A component that is cancelled is popped once its hosted stack is cleared; what happens
meanwhile is entered with its call. -/
theorem endActive_component {hosted : DialogSet} {n : Nat}
    (hs : Stack.level? v.level s.turn.shape = some (f :: rest)) (hd : v.find? f.id = some d)
    (hset : d.children = some hosted) (hclose : d.onClose = Component.close)
    (hclear : ∀ fuel ≥ n, ∀ bound ≥ n, clear (call fuel) (v.enter hosted) .cancelled bound
      { s with journal := [] } = some (.ok (), s'))
    (hshape : s'.turn.shape = Stack.put (v.enter hosted).level [] s.turn.shape) :
    ∃ s'', (∀ fuel ≥ n + 1, endActive (call fuel) v .cancelled none s = some (.ok (), s'')) ∧
      s''.turn.shape = Stack.put v.level rest s.turn.shape ∧ s''.journal = s.journal ++
        [.called (.of v d s.turn (.close .cancelled)) (.ok ()) s'.journal] := by
  have hshape' : s'.turn.shape = Stack.put v.level ({ f with children := [] } :: rest)
      s.turn.shape := hshape.trans (Stack.put_succ hs [])
  have hs' : Stack.level? v.level s'.turn.shape = some ({ f with children := [] } :: rest) := by
    rw [hshape']
    exact Stack.level?_put hs _
  have hpop : (s'.turn.pop v.level).shape = Stack.put v.level rest s.turn.shape := by
    rw [Turn.shape_pop hs', hshape', Stack.put_put]
    rfl
  refine ⟨{ s' with
    turn := s'.turn.pop v.level
    journal := s.journal ++ [.called (.of v d s.turn (.close .cancelled)) (.ok ()) s'.journal] },
    fun fuel hfuel => ?_, hpop, rfl⟩
  obtain ⟨fuel, rfl⟩ := Nat.exists_eq_add_one.mpr (Nat.zero_lt_of_lt hfuel)
  have hcleared := hclear fuel (by omega) fuel (by omega)
  exact endActive_eq hs hd (call_close hs hd hset hclose hcleared) hs' (writeOutput_none v d)

theorem container_endsWell {hosted : DialogSet} (hd : v.find? f.id = some d)
    (hset : d.children = some hosted) (hclose : d.onClose = Component.close)
    (hframes : ∀ g ∈ f.children, EndsWell (v.enter hosted) g) : EndsWell v f := by
  intro s rest hs
  -- what happens during the call is entered apart from what came before it
  obtain ⟨n, s₁, during, hclear, hshape, hjournal, hends⟩ :=
    clear_settles (s := { s with journal := [] }) hframes (Stack.level?_succ hs)
  obtain rfl : s₁.journal = during := hjournal
  obtain ⟨s₂, hend, hpop, hentered⟩ := endActive_component hs hd hset hclose hclear hshape
  have hlineup := Stack.lineup_outside hs
  exact ⟨n + 1, s₂, _, hend, hpop, hentered,
    .container hd hset (Stack.lineup_eq_cons hs) (hlineup ▸ hends)⟩

/-- A frame ends well when it and all frames inside it are registered. -/
theorem endsWell_of_registered {event : Event} (h : Registered (Dialog.Cancellable event) v f) :
    EndsWell v f := by
  induction h with
  | @idle v f d hd hp hidle =>
    rcases hp.close with ⟨hleaf, hclose⟩ | ⟨hset, hclose⟩
    · exact leaf_endsWell hd hleaf hclose
    · obtain ⟨hosted, hset⟩ := Option.isSome_iff_exists.mp hset
      refine container_endsWell hd hset hclose fun g hg => ?_
      rw [hidle] at hg
      exact absurd hg List.not_mem_nil
  | hosting hd hp hset _ ih =>
    rcases hp.close with ⟨hleaf, -⟩ | ⟨-, hclose⟩
    · rw [hset] at hleaf
      cases hleaf
    · exact container_endsWell hd hset hclose ih

/-! ## Outward -/

section
variable {caller : Caller} {event : Event} {bound : Nat}

theorem cancelOutward_stop {offered : Bool} (hdepth : s.turn.depth v.level = 0)
    (hparent : v.parent? = none) :
    cancelOutward caller event v offered (bound + 1) s = some (.ok (), s) := by
  simp only [cancelOutward, Eval.bind_apply, Eval.turn, if_pos hdepth, hparent]
  rfl

theorem cancelOutward_climb {offered : Bool} {p : View} (hdepth : s.turn.depth v.level = 0)
    (hparent : v.parent? = some p) : cancelOutward caller event v offered (bound + 1) s =
      cancelOutward caller event p true bound s := by
  simp only [cancelOutward, Eval.bind_apply, Eval.turn, if_pos hdepth, hparent]

theorem cancelOutward_handled (hdepth : s.turn.depth v.level ≠ 0)
    (hemit : emit caller v event false s = some (.ok true, s')) :
    cancelOutward caller event v true (bound + 1) s = some (.ok (), s') := by
  simp only [cancelOutward, Eval.bind_apply, Eval.turn, if_neg hdepth, if_true, hemit]
  rfl

theorem cancelOutward_declined {s'' : Session} (hdepth : s.turn.depth v.level ≠ 0)
    (hemit : emit caller v event false s = some (.ok false, s'))
    (hend : endActive caller v .cancelled none s' = some (.ok (), s'')) :
    cancelOutward caller event v true (bound + 1) s =
      cancelOutward caller event v true bound s'' := by
  simp only [cancelOutward, Eval.bind_apply, Eval.turn, if_neg hdepth, if_true, hemit,
    Bool.false_eq_true, if_false, hend]

theorem cancelOutward_first (hdepth : s.turn.depth v.level ≠ 0)
    (hend : endActive caller v .cancelled none s = some (.ok (), s')) :
    cancelOutward caller event v false (bound + 1) s =
      cancelOutward caller event v true bound s' := by
  have hnone : (pure false : Eval Bool) s = some (.ok false, s) := rfl
  simp only [cancelOutward, Eval.bind_apply, Eval.turn, if_neg hdepth, hnone,
    Bool.false_eq_true, if_false, hend]

end

/-- Going outward from a view, a cancellation comes to its end; what it enters in the
journal and what it leaves of the lineup there are as a relation says. -/
def Outward (event : Event)
    (made : List (Nat × Frame) → List Entry → List (Nat × Frame) → Prop) (v : View)
    (s : Session) : Prop :=
  ∃ n s' entries remaining,
    (∀ fuel ≥ n, ∀ bound ≥ n,
      cancelOutward (call fuel) event v true bound s = some (.ok (), s')) ∧
    s'.journal = s.journal ++ entries ∧ Stack.Remains remaining s'.turn.shape ∧
    made (Stack.lineup v.level s.turn.shape) entries remaining

theorem lineup_parent {p : View} (hframes : (Stack.level? v.level s.turn.shape).getD [] = [])
    (hparent : v.parent? = some p) :
    Stack.lineup v.level s.turn.shape = Stack.lineup p.level s.turn.shape := by
  rw [View.level_parent? hparent] at hframes ⊢
  exact Stack.lineup_succ hframes

section
variable {event : Event} {top : View}
  {made : List (Nat × Frame) → List Entry → List (Nat × Frame) → Prop}

theorem outward_stop (hframes : (Stack.level? v.level s.turn.shape).getD [] = [])
    (hparent : v.parent? = none) (hmade : made [] [] []) : Outward event made v s := by
  have hlevel := View.level_eq_zero hparent
  have hempty : s.turn.shape = [] := by simpa [hlevel] using hframes
  refine ⟨1, s, [], [], fun fuel _ bound hbound => ?_, by simp, hempty, ?_⟩
  · obtain ⟨bound, rfl⟩ := Nat.exists_eq_add_one.mpr hbound
    exact cancelOutward_stop (depth_eq_zero hframes) hparent
  · rw [hlevel, hempty]
    exact hmade

theorem outward_climb {p : View}
    (hframes : (Stack.level? v.level s.turn.shape).getD [] = []) (hparent : v.parent? = some p)
    (h : Outward event made p s) : Outward event made v s := by
  obtain ⟨n, s', entries, remaining, hrest, hjournal, hremains, hmade⟩ := h
  refine ⟨n + 1, s', entries, remaining, fun fuel hfuel bound hbound => ?_, hjournal, hremains,
    lineup_parent hframes hparent ▸ hmade⟩
  obtain ⟨bound, rfl⟩ := Nat.exists_eq_add_one.mpr (Nat.zero_lt_of_lt hbound)
  rw [cancelOutward_climb (depth_eq_zero hframes) hparent]
  exact hrest fuel (by omega) bound (by omega)

/-- A frame that handles the event stays, and so do those further out. -/
theorem outward_kept {n : Nat} {entries : List Entry}
    (hs : Stack.level? v.level s.turn.shape = some (f :: rest))
    (hemit : ∀ fuel ≥ n, emit (call fuel) v event false s = some (.ok true, s'))
    (hshape : s'.turn.shape = s.turn.shape) (hjournal : s'.journal = s.journal ++ entries)
    (hmade : made (Stack.lineup v.level s.turn.shape) entries
      (Stack.lineup v.level s.turn.shape)) : Outward event made v s := by
  have hlineup := Stack.lineup_eq_cons hs
  refine ⟨n + 1, s', entries, _, fun fuel hfuel bound hbound => ?_, hjournal, ?_, hmade⟩
  · obtain ⟨bound, rfl⟩ := Nat.exists_eq_add_one.mpr (Nat.zero_lt_of_lt hbound)
    exact cancelOutward_handled (depth_ne_zero hs) (hemit fuel (by omega))
  · rw [hlineup]
    exact (congrArg (Stack.lineup v.level) hshape).trans hlineup

/-- A frame that declines the event is ended, and the cancellation goes on without it. -/
theorem outward_ended {n m : Nat} {s'' : Session} {entries : List Entry}
    (hs : Stack.level? v.level s.turn.shape = some (f :: rest))
    (hemit : ∀ fuel ≥ n, emit (call fuel) v event false s = some (.ok false, s'))
    (hend : ∀ fuel ≥ m, endActive (call fuel) v .cancelled none s' = some (.ok (), s''))
    (hjournal : s''.journal = s.journal ++ entries) (h : Outward event made v s'')
    (hmade : ∀ more remaining, made (Stack.lineup v.level s''.turn.shape) more remaining →
      made (Stack.lineup v.level s.turn.shape) (entries ++ more) remaining) :
    Outward event made v s := by
  obtain ⟨k, s₃, more, remaining, hrest, hjournal', hremains, hmore⟩ := h
  refine ⟨max n (max m k) + 1, s₃, entries ++ more, remaining,
    fun fuel hfuel bound hbound => ?_, ?_, hremains, hmade more remaining hmore⟩
  · obtain ⟨bound, rfl⟩ := Nat.exists_eq_add_one.mpr (Nat.zero_lt_of_lt hbound)
    rw [cancelOutward_declined (depth_ne_zero hs) (hemit fuel (by omega))
      (hend fuel (by omega))]
    exact hrest fuel (by omega) bound (by omega)
  · rw [hjournal', hjournal, List.append_assoc]

/-- Going outward from a view, a cancellation does what the lineup there says. -/
def SettlesOutward (event : Event) (top v : View) (s : Session) : Prop :=
  Outward event (Cancels event top true) v s

/-- One round: the active frame is offered the event, and unless it handles it, it ends
and the cancellation goes on without it. -/
theorem settlesOutward_round (hbubble : event.bubble = false) (htop : top.atLevel v.level = v)
    (hreg : Registered (Dialog.Cancellable event) v f)
    (hs : Stack.level? v.level s.turn.shape = some (f :: rest))
    (hafter : ∀ s₂ : Session, s₂.turn.shape = Stack.put v.level rest s.turn.shape →
      SettlesOutward event top v s₂) : SettlesOutward event top v s := by
  have hlineup := Stack.lineup_eq_cons hs
  obtain ⟨d, hd, hcancellable⟩ := hreg.dialog
  obtain ⟨n, handled, s₁, entries, hemit, hshape, hjournal, hoffered⟩ :=
    emit_settles hbubble hcancellable.before hcancellable.after hs hd
  cases handled with
  | true =>
    refine outward_kept hs hemit hshape hjournal ?_
    rw [hlineup]
    exact .kept (htop.symm ▸ hoffered)
  | false =>
    have hs₁ : Stack.level? v.level s₁.turn.shape = some (f :: rest) := by rw [hshape, hs]
    obtain ⟨m, s₂, entry, hend, hshape', hjournal', hends⟩ :=
      endsWell_of_registered hreg s₁ rest hs₁
    rw [hshape] at hshape' hends
    have hentries : s₂.journal = s.journal ++ (entries ++ [entry]) := by
      rw [hjournal', hjournal, List.append_assoc]
    refine outward_ended hs hemit hend hentries (hafter s₂ hshape') fun more remaining hmore => ?_
    rw [hshape'] at hmore
    rw [hlineup, List.append_assoc]
    exact .ended (htop.symm ▸ hoffered) (htop.symm ▸ hends) hmore

/-- Going outward, the frames of a stack are taken off one after another, and then the stack
around it is turned to: what holds at the end of this, and before each step if it holds
after it, holds at the beginning. -/
theorem outward_induction {P : View → Session → Prop}
    (hstop : ∀ v s, (Stack.level? v.level s.turn.shape).getD [] = [] → v.parent? = none → P v s)
    (hclimb : ∀ v p s, (Stack.level? v.level s.turn.shape).getD [] = [] →
      v.parent? = some p → P p s → P v s)
    (hround : ∀ v s f rest, Stack.level? v.level s.turn.shape = some (f :: rest) →
      (∀ s₂ : Session, s₂.turn.shape = Stack.put v.level rest s.turn.shape → P v s₂) → P v s)
    (v : View) (s : Session) : P v s := by
  -- each step makes the lineup shorter or goes one level out
  induction hmeasure : (Stack.lineup v.level s.turn.shape).length + v.level
    using Nat.strongRecOn generalizing v s with
  | ind measure ih =>
  subst hmeasure
  cases hframes : (Stack.level? v.level s.turn.shape).getD [] with
  | cons f rest =>
    have hs : Stack.level? v.level s.turn.shape = some (f :: rest) := by
      cases hlevel : Stack.level? v.level s.turn.shape with
      | none => simp [hlevel] at hframes
      | some u => simpa [hlevel] using hframes
    have hlineup := Stack.lineup_eq_cons hs
    exact hround v s f rest hs fun s₂ hshape => ih _ (by simp [hshape, hlineup]) v s₂ rfl
  | nil =>
    cases hparent : v.parent? with
    | none => exact hstop v s hframes hparent
    | some p =>
      have hlevel := View.level_parent? hparent
      have hlineup := lineup_parent hframes hparent
      refine hclimb v p s hframes hparent (ih _ ?_ p s rfl)
      rw [hlineup]
      omega

theorem cancelOutward_settles (hbubble : event.bubble = false) (hv : v.sets <:+ top.sets)
    (hregistered : ∀ level f, (level, f) ∈ Stack.lineup v.level s.turn.shape →
      Registered (Dialog.Cancellable event) (top.atLevel level) f) :
    SettlesOutward event top v s := by
  induction v, s using outward_induction with
  | hstop v s hframes hparent => exact outward_stop hframes hparent .done
  | hclimb v p s hframes hparent ih =>
    have hp := (View.sets_parent?_suffix hparent).trans hv
    have hlineup := lineup_parent hframes hparent
    exact outward_climb hframes hparent
      (ih hp fun level g hg => hregistered level g (hlineup ▸ hg))
  | hround v s f rest hs ih =>
    have htop : top.atLevel v.level = v := View.atLevel_of_suffix hv
    obtain ⟨hfirst, hrest⟩ := (Stack.forall_lineup hs).mp hregistered
    exact settlesOutward_round hbubble htop (htop ▸ hfirst) hs fun s₂ hshape =>
      ih s₂ hshape hv (hshape ▸ hrest)

end

theorem chain_not_empty {n : Nat} {u : Stack} (h : Stack.level? n u = some (f :: rest)) :
    (Stack.chain n u).all List.isEmpty = false := by
  cases n with
  | zero =>
    obtain rfl := Option.some.inj h
    rfl
  | succ n => cases u with
    | nil => cases h
    | cons g below => simp [Stack.chain]

theorem cancelAll_eq {caller : Caller} {name : String} {value : Option Json} {fuel : Nat}
    (hchain : ¬ (s.turn.chain v.level).all List.isEmpty = true)
    (h : cancelOutward caller { name, value } v false fuel s = some (.ok (), s')) :
    cancelAll caller v name value fuel s = some (.ok .cancelled, s') := by
  simp only [cancelAll, Eval.bind_apply, Eval.turn, if_neg hchain, h]
  rfl

/-- From a context with frames of its own a cancellation ends the active one, unasked, and then
goes outward. -/
theorem cancelAll_first {name : String} {value : Option Json} {n m : Nat} {s'' : Session}
    (hs : Stack.level? v.level s.turn.shape = some (f :: rest))
    (hend : ∀ fuel ≥ n, endActive (call fuel) v .cancelled none s = some (.ok (), s'))
    (hrest : ∀ fuel ≥ m, ∀ bound ≥ m,
      cancelOutward (call fuel) { name, value } v true bound s' = some (.ok (), s'')) :
    ∀ fuel ≥ max n m + 1,
      cancelAll (call fuel) v name value fuel s = some (.ok .cancelled, s'') := by
  intro fuel hfuel
  obtain ⟨fuel, rfl⟩ := Nat.exists_eq_add_one.mpr (Nat.zero_lt_of_lt hfuel)
  obtain ⟨u, hu, hbare⟩ := Turn.stackAt?_of_shape hs
  have hchain : ¬ (s.turn.chain v.level).all List.isEmpty = true := by
    cases u with
    | nil => cases hbare
    | cons g below => simp [Turn.chain, chain_not_empty hu]
  apply cancelAll_eq hchain
  rw [cancelOutward_first (depth_ne_zero hs) (hend (fuel + 1) (by omega))]
  exact hrest (fuel + 1) (by omega) fuel (by omega)

/-- A cancellation ends the active frame without offering it the event, and then goes
outward. -/
theorem cancelAll_cancels {name : String} {value : Option Json}
    (hs : Stack.level? v.level s.turn.shape = some (f :: rest))
    (hregistered : ∀ level f, (level, f) ∈ Stack.lineup v.level s.turn.shape →
      Registered (Dialog.Cancellable { name, value }) (v.atLevel level) f) :
    ∃ n s' entries remaining,
      (∀ fuel ≥ n, cancelAll (call fuel) v name value fuel s = some (.ok .cancelled, s')) ∧
      s'.journal = s.journal ++ entries ∧ Stack.Remains remaining s'.turn.shape ∧
      Cancels { name, value } v false (Stack.lineup v.level s.turn.shape) entries remaining := by
  have hlineup := Stack.lineup_eq_cons hs
  have htop : v.atLevel v.level = v := View.atLevel_of_suffix (List.suffix_refl _)
  obtain ⟨hfirst, houter⟩ := (Stack.forall_lineup hs).mp hregistered
  rw [htop] at hfirst
  obtain ⟨n, s₁, entry, hend, hshape, hjournal, hends⟩ := endsWell_of_registered hfirst s rest hs
  have houtward : SettlesOutward { name, value } v v s₁ :=
    cancelOutward_settles rfl (List.suffix_refl v.sets) (hshape ▸ houter)
  obtain ⟨m, s₂, more, remaining, hrest, hjournal', hremains, hcancels⟩ := houtward
  refine ⟨max n m + 1, s₂, [] ++ entry :: more, remaining, cancelAll_first hs hend hrest, ?_,
    hremains, ?_⟩
  · rw [hjournal', hjournal, List.append_assoc]
    rfl
  · rw [hshape] at hcancels
    rw [hlineup]
    exact .ended rfl (htop.symm ▸ hends) hcancels

/-- A cancellation from a context with a stack that is not empty comes to its end as
cancelled, if all frames of its lineup are registered with dialogs that do it no harm.
For some number of frames it ends those before, in the order of the lineup, each with
one entry, and leaves the others; that frame, if there is one, handled the event. But
for the first, each frame up to it was offered the event once, before its end. -/
theorem cancelAll_settles (v : View) (name : String) (value : Option Json) (s : Session)
    (hown : ∃ f rest, s.turn.stackAt? v.level = some (f :: rest))
    (hregistered : ∀ level f, (level, f) ∈ Stack.lineup v.level s.turn.shape →
      Registered (Dialog.Cancellable { name, value }) (v.atLevel level) f) :
    let lineup := Stack.lineup v.level s.turn.shape
    ∃ (n k : Nat) (s' : Session) (offers : Nat → List Entry) (ends : Nat → Entry),
      (∀ fuel ≥ n, cancelAll (call fuel) v name value fuel s = some (.ok .cancelled, s')) ∧
      0 < k ∧ k ≤ lineup.length ∧ Stack.Remains (lineup.drop k) s'.turn.shape ∧
      s'.journal = s.journal ++ ((List.range k).flatMap fun i => offers i ++ [ends i]) ++ offers k ∧
      (∀ i level f, i < k → lineup[i]? = some (level, f) →
        Ends (v.atLevel level) f (lineup.drop (i + 1)) (ends i)) ∧
      offers 0 = [] ∧
      (∀ i level f, 0 < i → i ≤ k → lineup[i]? = some (level, f) →
        Offered { name, value } (v.atLevel level) f (lineup.drop (i + 1)) (decide (i = k))
          (offers i)) ∧
      (k = lineup.length → offers k = []) := by
  intro lineup
  obtain ⟨g, below, hstack⟩ := hown
  have hs : Stack.level? v.level s.turn.shape = some (g.bare :: Stack.bare below) := by
    rw [Turn.level?_shape, hstack]
    rfl
  obtain ⟨n, s', entries, remaining, hcancel, hjournal, hremains, hcancels⟩ :=
    cancelAll_cancels hs hregistered
  obtain ⟨k, offers, ends, hk, hremaining, hentries, hendings, hofferings, hlast, hfirst⟩ :=
    hcancels.exists_count
  have hpositive : 0 < lineup.length := by
    have hlineup := Stack.lineup_eq_cons hs
    have hlength := congrArg List.length hlineup
    exact hlength ▸ Nat.succ_pos _
  refine ⟨n, k, s', offers, ends, hcancel, (hfirst rfl).2 hpositive, hk, hremaining ▸ hremains,
    ?_, hendings, (hfirst rfl).1,
    fun i level f hi hik hf => hofferings i level f hik (.inr hi) hf, hlast⟩
  rw [hjournal, List.append_assoc, ← hentries]

end Engine

/-! ## A component above a dialog that handles every event -/

/-- A dialog that waits and handles all events or none. -/
def Dialog.standing (id : String) (handles : Bool) : Dialog :=
  { id, onBegin := fun _ => pure .waiting, beforeEvent := fun _ => pure handles }

def View.order : View :=
  let steps : DialogSet := Table.empty.insert "size" (.standing "size" false)
  let order : Component := { id := "order", initial := "size", dialogs := steps }
  { own := steps
    outer := [(Table.empty.insert "order" order.dialog).insert "menu" (.standing "menu" true)] }

/-- An order waits for a size, and the menu waits for the order. -/
def Session.ordering : Session :=
  { turn :=
    { activity := .message "c" "cancel"
      stack := [{ id := "order", children := [.owning "size"] }, .owning "menu"] } }

theorem Dialog.harmless_of_pure {d : Dialog} {hook : Hook} {answer : hook.Reply}
    (h : d.program hook = pure answer) (v : View) : d.Harmless v hook := by
  intro s f _ _
  have hcall : Engine.call 1 v d hook s = some (.ok answer,
      { s with journal := s.journal ++ [.called (.of v d s.turn hook) (.ok answer) []] }) := by
    simp only [Engine.call, h]
    rfl
  exact ⟨1, answer, _, hcall, rfl⟩

theorem Dialog.standing_cancellable (id : String) (handles : Bool) (event : Event) (v : View) :
    (standing id handles).Cancellable event v where
  before := harmless_of_pure rfl v
  after := harmless_of_pure rfl v
  close := .inl ⟨rfl, harmless_of_pure rfl v⟩

theorem Engine.cancelAll_settles_order : ∃ n k s',
    (∀ fuel ≥ n, cancelAll (call fuel) .order "cancelDialog" none fuel .ordering =
      some (.ok .cancelled, s')) ∧ 0 < k ∧
    Stack.Remains
      ([(1, { id := "size" }), (0, { id := "order" }), (0, { id := "menu" })].drop k)
      s'.turn.shape := by
  have hlineup : Stack.lineup View.order.level Session.ordering.turn.shape =
      [(1, { id := "size" }), (0, { id := "order" }), (0, { id := "menu" })] := rfl
  obtain ⟨n, k, s', -, -, hcancel, hk, -, hremains, -⟩ :=
    cancelAll_settles .order "cancelDialog" none .ordering ⟨.owning "size", [], rfl⟩ (by
      intro level f hmem
      rw [hlineup] at hmem
      simp only [List.mem_cons, Prod.mk.injEq, List.not_mem_nil, or_false] at hmem
      rcases hmem with ⟨rfl, rfl⟩ | ⟨rfl, rfl⟩ | ⟨rfl, rfl⟩
      · exact .idle rfl (Dialog.standing_cancellable _ _ _ _) rfl
      · refine .idle rfl ⟨Dialog.harmless_of_pure rfl _, Dialog.harmless_of_pure rfl _, ?_⟩ rfl
        exact .inr ⟨rfl, rfl⟩
      · exact .idle rfl (Dialog.standing_cancellable _ _ _ _) rfl)
  exact ⟨n, k, s', hcancel, hk, hlineup ▸ hremains⟩

end Colloquy
