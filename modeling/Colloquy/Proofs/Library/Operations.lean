import Colloquy.Proofs.Library.Obeys

/-!
# Stack operations among library dialogs

Where hooks leave behind a stack that resolves and a status that fits it, so do the
operations of the engine that call them: the stack at the view's level is exchanged, the
rest of the shape stays, and the status is waiting or completed as that stack is not or
is empty.
-/
namespace Colloquy

/-- The ids of the frame and of those inside it mean dialogs where they run. -/
abbrev Resolved (v : View) (f : Frame) : Prop := Registered (fun _ _ => True) v f

namespace View

def Library (v : View) : Prop := ∀ set ∈ v.sets, set.Library

variable {v : View} (h : v.Library)
include h

theorem Library.find? {id : String} {d : Dialog} (hd : v.find? id = some d) : d.Library := by
  obtain ⟨set, hset, hfound⟩ := List.exists_of_findSome?_eq_some hd
  exact h set hset id d hfound

theorem Library.enter {hosted : DialogSet} (hhosted : hosted.Library) :
    (v.enter hosted).Library := by
  intro set hset
  rcases List.mem_cons.mp hset with rfl | houter
  · exact hhosted
  · exact h set houter

end View

/-- A frame of a dialog is active at the level of a view, over others that resolve. -/
structure Running (v : View) (d : Dialog) (f : Frame) (rest shape : Stack) : Prop where
  library : v.Library
  dialog : v.find? f.id = some d
  level : Stack.level? v.level shape = some (f :: rest)
  frames : ∀ g ∈ f :: rest, Resolved v g

/-- Waiting goes with a stack that is not empty, and completed with one that is. -/
def TurnResult.Fits (r : TurnResult) (s : Stack) : Prop :=
  (r.status = .waiting ∧ s ≠ []) ∨ (r.status = .completed ∧ s = [])

/-- A shape in which only the stack of a view is another one, which resolves and which
the result fits. -/
def Left (v : View) (before : Stack) (r : TurnResult) (shape : Stack) : Prop :=
  ∃ u, shape = Stack.put v.level u before ∧ (∀ g ∈ u, Resolved v g) ∧ r.Fits u

theorem Left.of_put {v : View} {before u : Stack} {r : TurnResult} {shape : Stack}
    (h : Left v (Stack.put v.level u before) r shape) : Left v before r shape := by
  obtain ⟨w, hshape, hframes, hfits⟩ := h
  exact ⟨w, by rw [hshape, Stack.put_put], hframes, hfits⟩

/-- What a hook may rely on besides its dialog's running: a frame that begins or ends
hosts nothing. Nothing is cancelled. -/
def Hook.Pre (f : Frame) : Hook → Prop
  | .begin _ => f.children = []
  | .close reason => reason ≠ .cancelled ∧ f.children = []
  | _ => True

/-- What a hook leaves behind. -/
def Hook.Post (v : View) (before : Stack) : (hook : Hook) → hook.Reply → Stack → Prop
  | .begin _ | .advance | .resume _ _ => Left v before
  | .reprompt | .close _ => fun _ shape => shape = before
  | .before _ | .after _ => fun handled shape => handled = false ∧ shape = before

/-- Hooks leave behind what they should, as far as they answer. -/
def Caller.Sound (caller : Caller) : Prop :=
  ∀ ⦃v d s f rest⦄ (hook : Hook), Running v d f rest s.turn.shape → hook.Pre f →
    (caller v d hook).Obeys s (hook.Post v s.turn.shape)

/-- No library dialog handles an event. -/
def Caller.Mute (caller : Caller) : Prop :=
  ∀ ⦃v d s⦄ (event : Event), d.Library →
    (caller v d (.before event)).Obeys s
      (fun handled shape => handled = false ∧ shape = s.turn.shape) ∧
    (caller v d (.after event)).Obeys s
      (fun handled shape => handled = false ∧ shape = s.turn.shape)

namespace Engine
variable {caller : Caller} {v : View} {d : Dialog} {s : Session} {f : Frame} {rest : Stack}

theorem popFrame_obeys {level : Nat} {u : Stack}
    (hs : Stack.level? level s.turn.shape = some u) : (popFrame level).Obeys s
      (fun _ shape => shape = Stack.put level u.tail s.turn.shape) := by
  obtain ⟨w, hw, -⟩ := Turn.stackAt?_of_shape hs
  refine Eval.obeys_onTurn ?_ fun _ _ => ?_
  · simpa only [hw] using PlainOutcome.ok _
  · simpa only [hw] using Turn.shape_pop hs

theorem pushFrame_obeys {level : Nat} {u : Stack} {frame : Turn → Frame}
    (hs : Stack.level? level s.turn.shape = some u) : (pushFrame level frame).Obeys s
      (fun _ shape => shape = Stack.put level ((frame s.turn).bare :: u) s.turn.shape) := by
  obtain ⟨w, hw, -⟩ := Turn.stackAt?_of_shape hs
  refine Eval.obeys_onTurn ?_ fun _ _ => ?_
  · simpa only [hw] using PlainOutcome.ok _
  · simpa only [hw] using Turn.shape_push hs _

theorem writeSeeds_calm (level : Nat) (seeds : List (String × Json)) :
    (writeSeeds level seeds).Calm := by
  induction seeds with
  | nil => exact Eval.calm_ofExcept (.ok ())
  | cons seed rest ih =>
    obtain ⟨path, value⟩ := seed
    exact Eval.calm_bind (calm_edit (.set path value) level) fun _ => ih

/-! ## Ending -/

theorem writeOutput_unbound (v : View) (h : d.output = none) (result : Option Json) :
    writeOutput v d result = pure () := by
  simp [writeOutput, h]

theorem endActive_obeys (hc : caller.Sound) (h : Running v d f rest s.turn.shape)
    (hidle : f.children = []) {reason : Reason} (hreason : reason ≠ .cancelled)
    (result : Option Json) : (endActive caller v reason result).Obeys s
      (fun _ shape => shape = Stack.put v.level rest s.turn.shape) := by
  obtain ⟨g, hg, -, hgd⟩ := View.active?_of_shape h.level h.dialog
  apply Eval.obeys_turn
  simp only [hg, hgd]
  refine Eval.obeys_bind (hc (.close reason) h ⟨hreason, hidle⟩) fun _ s₁ hs₁ => ?_
  have hs₁ : s₁.turn.shape = s.turn.shape := hs₁
  have hlevel : Stack.level? v.level s₁.turn.shape = some (f :: rest) := by rw [hs₁, h.level]
  refine Eval.obeys_bind (popFrame_obeys hlevel) fun _ s₂ hs₂ => ?_
  rw [writeOutput_unbound v (h.library.find? h.dialog).output_eq]
  apply Eval.obeys_pure
  rw [hs₂, hs₁]
  rfl

/-- A frame that ends hands over to the one below, if there is one. -/
theorem finish_obeys (hc : caller.Sound) (h : Running v d f rest s.turn.shape)
    (hidle : f.children = []) (result : Option Json) :
    (finish caller v result).Obeys s (Left v s.turn.shape) := by
  have hdepth : s.turn.depth v.level ≠ 0 := by
    rw [Turn.depth_of_shape h.level]
    exact Nat.succ_ne_zero _
  have hended : Reason.ended ≠ .cancelled := by decide
  apply Eval.obeys_turn
  rw [if_neg hdepth]
  refine Eval.obeys_bind (endActive_obeys hc h hidle hended result) fun _ s₁ hs₁ => ?_
  apply Eval.obeys_turn
  have hlevel : Stack.level? v.level s₁.turn.shape = some rest := by
    rw [hs₁]
    exact Stack.level?_put h.level rest
  cases rest with
  | nil =>
    simp only [Turn.active?_of_shape_nil hlevel]
    exact Eval.obeys_pure ⟨[], hs₁, List.forall_mem_nil _, .inr ⟨rfl, rfl⟩⟩
  | cons below rest =>
    obtain ⟨d', hd', -⟩ := (h.frames below (by simp)).dialog
    have hrunning : Running v d' below rest s₁.turn.shape :=
      ⟨h.library, hd', hlevel, fun g hg => h.frames g (List.mem_cons_of_mem f hg)⟩
    obtain ⟨g, hg, -, hgd⟩ := View.active?_of_shape hrunning.level hrunning.dialog
    simp only [hg, registered, hgd]
    refine Eval.obeys_mono (hc (.resume .ended result) hrunning trivial) fun r shape hleft => ?_
    have hleft : Left v s₁.turn.shape r shape := hleft
    rw [hs₁] at hleft
    exact hleft.of_put

/-! ## Beginning -/

theorem newFrame_bare (d : Dialog) (id : String) (t : Turn) (level : Nat) :
    (newFrame d id t level).bare = { id } := by
  unfold newFrame
  split <;> rfl

theorem pushAndBegin_obeys (hc : caller.Sound) (hlibrary : v.Library) {u : Stack}
    (hs : Stack.level? v.level s.turn.shape = some u) (hframes : ∀ g ∈ u, Resolved v g)
    {id : String} (hd : v.find? id = some d) (options : Option Json) :
    (pushAndBegin caller v d id [] options).Obeys s (Left v s.turn.shape) := by
  have hresolved : Resolved v { id } := .idle hd trivial rfl
  apply Eval.obeys_turn
  refine Eval.obeys_bind (pushFrame_obeys hs) fun _ s₁ hs₁ => ?_
  rw [newFrame_bare] at hs₁
  have hbegun : (do
      writeSeeds v.level (seeds d [] options)
      caller v d (.begin options) : Eval TurnResult).Obeys s₁ (Left v s.turn.shape) := by
    refine Eval.obeys_bind ((writeSeeds_calm _ _).obeys s₁) fun _ s₂ hs₂ => ?_
    have hrunning : Running v d { id } u s₂.turn.shape := by
      refine ⟨hlibrary, hd, ?_, fun g hg => ?_⟩
      · rw [hs₂, hs₁]
        exact Stack.level?_put hs _
      · rcases List.mem_cons.mp hg with rfl | hbelow
        · exact hresolved
        · exact hframes g hbelow
    refine Eval.obeys_mono (hc (.begin options) hrunning rfl) fun r shape hleft => ?_
    have hleft : Left v s₂.turn.shape r shape := hleft
    rw [hs₂, hs₁] at hleft
    exact hleft.of_put
  refine Eval.obeys_bind (Eval.obeys_attempt hbegun) fun outcome s₂ hs₂ => ?_
  cases outcome with
  | ok result => exact Eval.obeys_pure hs₂
  | error e =>
    refine Eval.obeys_bind (Q := fun _ _ => True) ?_ fun _ s₃ _ => Eval.obeys_throw hs₂
    exact Eval.obeys_onTurn (f := fun t => (.ok (), t.truncate v.level _)) (.ok ())
      fun _ _ => trivial

theorem readInputs_nil (t : Turn) (level : Nat) : readInputs t level [] = .ok [] := rfl

theorem lookUp_plain (v : View) (id : String) : PlainOutcome (lookUp v id) := by
  unfold lookUp
  split
  · exact .error trivial
  · split
    · exact .error trivial
    · exact .ok _

/-- A dialog that is begun comes on top of a stack that resolves. -/
theorem begin_obeys (hc : caller.Sound) (hlibrary : v.Library) {u : Stack}
    (hs : Stack.level? v.level s.turn.shape = some u) (hframes : ∀ g ∈ u, Resolved v g)
    (id : String) (options : Option Json) :
    (begin caller v id options).Obeys s (Left v s.turn.shape) := by
  unfold begin
  cases hfound : lookUp v id with
  | error e => exact Eval.obeys_throw (lookUp_plain v id e hfound)
  | ok d =>
    have hd := find?_of_lookUp hfound
    apply Eval.obeys_turn
    rw [(hlibrary.find? hd).inputs_eq, readInputs_nil]
    exact Eval.obeys_ok (pushAndBegin_obeys hc hlibrary hs hframes hd options)

/-- A dialog that replaces another comes in its place. -/
theorem replace_obeys (hc : caller.Sound) (h : Running v d f rest s.turn.shape) (id : String)
    (options : Option Json) : (replace caller v id options).Obeys s (Left v s.turn.shape) := by
  unfold replace
  cases hfound : lookUp v id with
  | error e => exact Eval.obeys_throw (lookUp_plain v id e hfound)
  | ok d =>
    have hd := find?_of_lookUp hfound
    apply Eval.obeys_turn
    rw [(h.library.find? hd).inputs_eq, readInputs_nil]
    apply Eval.obeys_ok
    have hmarked := (calm_edit (.set "turn.repeatDialogId" (.string id)) v.level).obeys s
    refine Eval.obeys_bind hmarked fun _ s₁ hs₁ => ?_
    have hlevel : Stack.level? v.level s₁.turn.shape = some (f :: rest) := by rw [hs₁, h.level]
    refine Eval.obeys_bind (popFrame_obeys hlevel) fun replaced s₂ hs₂ => ?_
    rw [hs₁] at hs₂
    have hlevel' : Stack.level? v.level s₂.turn.shape = some rest := by
      rw [hs₂]
      exact Stack.level?_put h.level _
    have hbegun := pushAndBegin_obeys hc h.library hlevel'
      (fun g hg => h.frames g (List.mem_cons_of_mem f hg)) hd options
    apply Eval.obeys_turn
    refine Eval.obeys_bind (Eval.obeys_attempt hbegun) fun outcome s₃ hs₃ => ?_
    cases outcome with
    | ok result =>
      have hleft : Left v s₂.turn.shape result s₃.turn.shape := hs₃
      rw [hs₂] at hleft
      exact Eval.obeys_pure hleft.of_put
    | error e =>
      have hplain : e.Plain := hs₃
      cases replaced with
      | none => exact Eval.obeys_throw hplain
      | some g =>
        refine Eval.obeys_bind (Q := fun _ _ => True) ?_ fun _ s₄ _ => Eval.obeys_throw hplain
        exact Eval.obeys_onTurn (f := fun t => (.ok (), restore v.level _ g t)) (.ok ())
          fun _ _ => trivial

/-! ## Going on -/

/-- A stack that is empty is reported, and any other goes on with its active frame. -/
theorem advance_obeys (hc : caller.Sound) (hlibrary : v.Library) {u : Stack}
    (hs : Stack.level? v.level s.turn.shape = some u) (hframes : ∀ g ∈ u, Resolved v g) :
    (advance caller v).Obeys s (fun r shape =>
      (u = [] ∧ r.status = .empty ∧ shape = s.turn.shape) ∨
        (u ≠ [] ∧ Left v s.turn.shape r shape)) := by
  apply Eval.obeys_turn
  cases u with
  | nil =>
    rw [Turn.active?_of_shape_nil hs]
    exact Eval.obeys_pure (.inl ⟨rfl, rfl, rfl⟩)
  | cons f rest =>
    obtain ⟨d, hd, -⟩ := (hframes f List.mem_cons_self).dialog
    have hrunning : Running v d f rest s.turn.shape := ⟨hlibrary, hd, hs, hframes⟩
    obtain ⟨g, hg, -, hgd⟩ := View.active?_of_shape hrunning.level hrunning.dialog
    simp only [hg, registered, hgd]
    exact Eval.obeys_mono (hc .advance hrunning trivial) fun r shape hleft =>
      .inr ⟨List.cons_ne_nil f rest, hleft⟩

/-! ## Events -/

theorem offer_obeys (hm : caller.Mute) (hlibrary : v.Library) (event : Event)
    {outward : Eval Bool} (ho : ∀ s, outward.Obeys s
      (fun handled shape => handled = false ∧ shape = s.turn.shape)) :
    (offer caller event v outward).Obeys s
      (fun handled shape => handled = false ∧ shape = s.turn.shape) := by
  apply Eval.obeys_turn
  cases s.turn.active? v.level with
  | none => exact Eval.obeys_pure ⟨rfl, rfl⟩
  | some g =>
    cases hd : v.find? g.id with
    | none =>
      simp only [hd]
      exact Eval.obeys_pure ⟨rfl, rfl⟩
    | some d =>
      simp only [hd]
      have hlib := hlibrary.find? hd
      refine Eval.obeys_bind (hm event hlib).1 fun handled s₁ hs₁ => ?_
      obtain ⟨rfl, hshape⟩ := hs₁
      rw [if_neg Bool.false_ne_true]
      refine Eval.obeys_bind (ho s₁) fun handled s₂ hs₂ => ?_
      obtain ⟨rfl, hshape'⟩ := hs₂
      rw [if_neg Bool.false_ne_true]
      refine Eval.obeys_mono (hm event hlib).2 fun handled shape hpost => ?_
      rw [hpost.2, hshape', hshape]
      exact ⟨hpost.1, rfl⟩

/-- An event runs out among library dialogs, however far it goes. -/
theorem dispatch_obeys (hm : caller.Mute) (event : Event) {own : DialogSet}
    {outer : List DialogSet} (hlibrary : View.Library { own, outer }) :
    (dispatch caller event own outer).Obeys s
      (fun handled shape => handled = false ∧ shape = s.turn.shape) := by
  induction outer generalizing own s with
  | nil => exact offer_obeys hm hlibrary event fun s => Eval.obeys_pure ⟨rfl, rfl⟩
  | cons next outer ih =>
    refine offer_obeys hm hlibrary event fun s => ?_
    split
    · exact ih fun set hset => hlibrary set (List.mem_cons_of_mem own hset)
    · exact Eval.obeys_pure ⟨rfl, rfl⟩

theorem reprompt_obeys (hc : caller.Sound) (hm : caller.Mute) (hlibrary : v.Library) {u : Stack}
    (hs : Stack.level? v.level s.turn.shape = some u) (hframes : ∀ g ∈ u, Resolved v g) :
    (reprompt caller v).Obeys s (fun _ shape => shape = s.turn.shape) := by
  have hemit : (emit caller v { name := Event.repromptDialog } false).Obeys s
      (fun handled shape => handled = false ∧ shape = s.turn.shape) :=
    Eval.obeys_turn (dispatch_obeys hm _ hlibrary)
  refine Eval.obeys_bind hemit fun handled s₁ hs₁ => ?_
  obtain ⟨rfl, hshape⟩ := hs₁
  rw [if_neg Bool.false_ne_true]
  apply Eval.obeys_turn
  rw [← hshape] at hs ⊢
  cases u with
  | nil =>
    simp only [Turn.active?_of_shape_nil hs]
    exact Eval.obeys_pure rfl
  | cons f rest =>
    obtain ⟨d, hd, -⟩ := (hframes f List.mem_cons_self).dialog
    have hrunning : Running v d f rest s₁.turn.shape := ⟨hlibrary, hd, hs, hframes⟩
    obtain ⟨g, hg, -, hgd⟩ := View.active?_of_shape hrunning.level hrunning.dialog
    simp only [hg, registered, hgd]
    exact Eval.obeys_bind (hc .reprompt hrunning trivial) fun _ s₂ hs₂ => Eval.obeys_pure hs₂

end Engine
end Colloquy
