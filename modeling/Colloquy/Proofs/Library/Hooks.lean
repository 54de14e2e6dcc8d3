import Colloquy.Proofs.Library.Operations

/-!
# The hooks of library dialogs

Every hook of a library dialog leaves behind a stack that resolves, with a status that
fits it, and tells no frame that it ends while it hosts others. The hooks call each
other through the engine at all levels; the induction is on the fuel of the calls.
-/
namespace Colloquy

namespace Engine
variable {caller : Caller} {fuel : Nat} {v : View} {d self : Dialog} {s : Session} {f : Frame}
  {rest shape : Stack}

/-! ## Prompts and waterfalls -/

theorem perform_obeys (hc : caller.Sound) (h : Running v d f rest s.turn.shape)
    (hidle : f.children = []) {c : Call TurnResult} (hleads : Program.Leads c) :
    (perform caller fuel d v c).Obeys s (Left v s.turn.shape) := by
  cases hleads with
  | begin id options => exact begin_obeys hc h.library h.level h.frames id options
  | replace id options => exact replace_obeys hc h id options
  | finish result => exact finish_obeys hc h hidle result
  | next result => exact hc (.resume .advanced result) h trivial

theorem finishing_obeys (hc : caller.Sound) (h : Running v d f rest shape)
    (hidle : f.children = []) {p : Program TurnResult} (hp : p.Finishing)
    (hs : s.turn.shape = shape) : (interpret caller fuel d v p).Obeys s (Left v shape) := by
  induction hp generalizing s with
  | wait =>
    refine Eval.obeys_pure ⟨f :: rest, ?_, h.frames, .inl ⟨rfl, List.cons_ne_nil f rest⟩⟩
    rw [hs, Stack.put_self h.level]
  | fail he => exact Eval.obeys_throw he
  | look _ ih => exact Eval.obeys_turn (ih _ hs)
  | edit _ ih =>
    refine Eval.obeys_bind ((calm_edit _ _).obeys_attempt s) fun r s₁ hs₁ => ?_
    exact ih r hs₁.1 (hs₁.2.trans hs)
  | note _ ih =>
    refine Eval.obeys_bind ((Eval.calm_log _).obeys s) fun _ s₁ hs₁ => ?_
    exact ih (hs₁.trans hs)
  | @within _ place body next hbody _ ih =>
    rw [interpret]
    apply Eval.obeys_turn
    cases v.at? s.turn place with
    | none =>
      refine ih none ?_ hs
      rintro _ ⟨⟩
    | some inner =>
      refine Eval.obeys_bind ((calm_quiet hbody).obeys_attempt s) fun r s₁ hs₁ => ?_
      refine ih (some r) ?_ (hs₁.2.trans hs)
      rintro _ ⟨⟩
      exact hs₁.1
  | operate hleads hreturns =>
    subst hs
    refine Eval.obeys_bind (Eval.obeys_attempt (perform_obeys hc h hidle hleads))
      fun r s₁ hs₁ => ?_
    exact obeys_returns (hreturns r) hs₁

/-! ## Components -/

/-- The frames that a resolved frame hosts resolve where they run. -/
theorem resolved_children (h : Resolved v f) (hd : v.find? f.id = some d) {hosted : DialogSet}
    (hset : d.children = some hosted) : ∀ g ∈ f.children, Resolved (v.enter hosted) g := by
  intro g hg
  cases h with
  | idle _ _ hidle =>
    rw [hidle] at hg
    exact absurd hg List.not_mem_nil
  | @hosting _ _ d' hosted' hd' _ hset' hframes =>
    rw [hd] at hd'
    obtain rfl := Option.some.inj hd'
    rw [hset] at hset'
    obtain rfl := Option.some.inj hset'
    exact hframes g hg

theorem children_eq_nil (h : Resolved v f) (hd : v.find? f.id = some d)
    (hleaf : d.children = none) : f.children = [] := by
  cases h with
  | idle _ _ hidle => exact hidle
  | hosting hd' _ hset' _ =>
    rw [hd] at hd'
    obtain rfl := Option.some.inj hd'
    rw [hleaf] at hset'
    cases hset'

theorem call_obeys {c : Call α} {Q : α → Stack → Prop}
    (h : (perform caller fuel self v c).Obeys s Q) :
    (interpret caller fuel self v (Program.run c)).Obeys s Q := by
  refine Eval.obeys_bind (Eval.obeys_attempt h) fun r s₁ hs₁ => ?_
  exact obeys_returns .done hs₁

theorem inChild_obeys {inner : View} (hchild : v.child? s.turn = some inner) {body : Program α}
    {Q : α → Stack → Prop} (h : (interpret caller fuel self inner body).Obeys s Q) :
    (interpret caller fuel self v (Program.inChild body)).Obeys s
      (fun o shape => ∃ x, o = some x ∧ Q x shape) := by
  rw [Program.inChild, interpret]
  apply Eval.obeys_turn
  simp only [View.at?, hchild]
  refine Eval.obeys_bind (Eval.obeys_attempt h) fun r s₁ hs₁ => ?_
  cases r with
  | ok x => exact Eval.obeys_pure ⟨x, rfl, hs₁⟩
  | error e => exact Eval.obeys_throw hs₁

theorem hosted_obeys {inner : View} (hchild : v.child? s.turn = some inner) {body : Program α}
    {Q : α → Stack → Prop} (h : (interpret caller fuel self inner body).Obeys s Q) :
    (interpret caller fuel self v (Component.hosted body)).Obeys s Q := by
  rw [Component.hosted, interpret_bind]
  refine Eval.obeys_bind (inChild_obeys hchild h) fun o s₁ hs₁ => ?_
  obtain ⟨x, rfl, hx⟩ := hs₁
  exact Eval.obeys_pure hx

/-- A component is running over what its hosted stack came to: a status that fits, or
empty for a stack where there was nothing. -/
def HostedLeft (v : View) (f : Frame) (rest : Stack) (hosted : DialogSet) (before : Stack)
    (r : TurnResult) (shape : Stack) : Prop :=
  ∃ u, shape = Stack.put v.level ({ f with children := u } :: rest) before ∧
    (∀ g ∈ u, Resolved (v.enter hosted) g) ∧ (r.Fits u ∨ (r.status = .empty ∧ u = []))

/-- What is left one level in, seen from the component that hosts it. -/
theorem hostedLeft_of_left {hosted : DialogSet} {r : TurnResult}
    (h : Running v d f rest shape) {after : Stack} (hleft : Left (v.enter hosted) shape r after) :
    HostedLeft v f rest hosted shape r after := by
  obtain ⟨u, hafter, hframes, hfits⟩ := hleft
  refine ⟨u, hafter.trans ?_, hframes, .inl hfits⟩
  exact Stack.put_succ h.level u

theorem component_child? {c : Component} (h : Running v c.dialog f rest s.turn.shape) :
    v.child? s.turn = some (v.enter c.dialogs) := by
  obtain ⟨g, hg, -, hgd⟩ := View.active?_of_shape h.level h.dialog
  simp [View.child?, hg, hgd, Component.dialog]

/-- A component that goes on with what its hosted stack came to waits for that stack or
ends over none. -/
theorem settle_obeys {c : Component} (hc : caller.Sound) (h : Running v c.dialog f rest shape)
    {r : TurnResult} (hs : HostedLeft v f rest c.dialogs shape r s.turn.shape) :
    (interpret caller fuel self v (Component.settle r)).Obeys s (Left v shape) := by
  obtain ⟨u, hshape, hframes, hstatus⟩ := hs
  have hresolved : Resolved v { f with children := u } := .hosting h.dialog trivial rfl hframes
  have hall : ∀ g ∈ { f with children := u } :: rest, Resolved v g := by
    intro g hg
    rcases List.mem_cons.mp hg with rfl | hbelow
    · exact hresolved
    · exact h.frames g (List.mem_cons_of_mem f hbelow)
  have hlevel : Stack.level? v.level s.turn.shape = some ({ f with children := u } :: rest) := by
    rw [hshape]
    exact Stack.level?_put h.level _
  have hrunning : Running v c.dialog { f with children := u } rest s.turn.shape :=
    ⟨h.library, h.dialog, hlevel, hall⟩
  have hends (hempty : u = []) :
      (interpret caller fuel self v (Program.finish r.result)).Obeys s (Left v shape) := by
    have hfinished : (interpret caller fuel self v (Program.finish r.result)).Obeys s
        (Left v s.turn.shape) := call_obeys (finish_obeys hc hrunning hempty r.result)
    refine Eval.obeys_mono hfinished fun x after hleft => ?_
    rw [hshape] at hleft
    exact hleft.of_put
  rcases hstatus with (⟨hwaiting, hne⟩ | ⟨hcompleted, hempty⟩) | ⟨hnothing, hempty⟩
  · simp only [Component.settle, hwaiting]
    exact Eval.obeys_pure ⟨_, hshape, hall, .inl ⟨hwaiting, List.cons_ne_nil _ _⟩⟩
  · simp only [Component.settle, hcompleted]
    exact hends hempty
  · simp only [Component.settle, hnothing]
    exact hends hempty

section
variable {c : Component} (hc : caller.Sound) (hlibrary : c.dialogs.Library)
  (h : Running v c.dialog f rest s.turn.shape)
include hc hlibrary h

theorem component_begin_obeys (hidle : f.children = []) (options : Option Json) :
    (interpret caller fuel self v (c.begin options)).Obeys s (Left v s.turn.shape) := by
  have hinner : Stack.level? (v.enter c.dialogs).level s.turn.shape = some [] :=
    hidle ▸ Stack.level?_succ h.level
  have hbegun := begin_obeys hc (h.library.enter hlibrary) hinner (List.forall_mem_nil _)
    c.initial options
  rw [Component.begin, interpret_bind]
  refine Eval.obeys_bind (hosted_obeys (component_child? h) (call_obeys hbegun))
    fun r s₁ hs₁ => settle_obeys hc h (hostedLeft_of_left h hs₁)

theorem component_advance_obeys :
    (interpret caller fuel self v Component.advance).Obeys s (Left v s.turn.shape) := by
  have hframes := resolved_children (h.frames f List.mem_cons_self) h.dialog rfl
  have hinner : Stack.level? (v.enter c.dialogs).level s.turn.shape = some f.children :=
    Stack.level?_succ h.level
  have hgone := advance_obeys hc (h.library.enter hlibrary) hinner hframes
  rw [Component.advance, interpret_bind]
  refine Eval.obeys_bind (hosted_obeys (component_child? h) (call_obeys hgone))
    fun r s₁ hs₁ => settle_obeys hc h ?_
  rcases hs₁ with ⟨hempty, hstatus, hshape⟩ | ⟨-, hleft⟩
  · refine ⟨f.children, ?_, hframes, .inr ⟨hstatus, hempty⟩⟩
    rw [hshape, ← Stack.put_succ h.level]
    exact (Stack.put_self hinner).symm
  · exact hostedLeft_of_left h hleft

theorem component_reprompt_obeys (hm : caller.Mute) :
    (interpret caller fuel self v Component.reprompt).Obeys s
      (fun _ after => after = s.turn.shape) := by
  have hframes := resolved_children (h.frames f List.mem_cons_self) h.dialog rfl
  have hinner : Stack.level? (v.enter c.dialogs).level s.turn.shape = some f.children :=
    Stack.level?_succ h.level
  have hasked := reprompt_obeys hc hm (h.library.enter hlibrary) hinner hframes
  rw [Component.reprompt, interpret_bind]
  refine Eval.obeys_bind (inChild_obeys (component_child? h) (call_obeys hasked))
    fun o s₁ hs₁ => ?_
  obtain ⟨x, -, hshape⟩ := hs₁
  exact Eval.obeys_pure hshape

theorem component_resume_obeys (hm : caller.Mute) :
    (interpret caller fuel self v Component.resume).Obeys s (Left v s.turn.shape) := by
  rw [Component.resume, interpret_bind]
  refine Eval.obeys_bind (component_reprompt_obeys hc hlibrary h hm) fun _ s₁ hs₁ => ?_
  refine Eval.obeys_pure ⟨f :: rest, ?_, h.frames, .inl ⟨rfl, List.cons_ne_nil f rest⟩⟩
  rw [hs₁, Stack.put_self h.level]

end

/-! ## All hooks -/

theorem event_obeys (hlib : d.Library) (event : Event) :
    (interpret caller fuel self v (d.beforeEvent event)).Obeys s
      (fun handled after => handled = false ∧ after = s.turn.shape) ∧
    (interpret caller fuel self v (d.afterEvent event)).Obeys s
      (fun handled after => handled = false ∧ after = s.turn.shape) := by
  rw [hlib.beforeEvent_eq, hlib.afterEvent_eq]
  exact ⟨Eval.obeys_pure ⟨rfl, rfl⟩, Eval.obeys_pure ⟨rfl, rfl⟩⟩

theorem program_obeys (hc : caller.Sound) (hm : caller.Mute) (hook : Hook)
    (h : Running v d f rest s.turn.shape) (hpre : hook.Pre f) :
    (interpret caller fuel d v (d.program hook)).Obeys s (hook.Post v s.turn.shape) := by
  have hlib := h.library.find? h.dialog
  have hf := h.frames f List.mem_cons_self
  cases hook with
  | before event => exact (event_obeys hlib event).1
  | after event => exact (event_obeys hlib event).2
  | begin options =>
    rcases hlib.leaf_or_component with hleaf | ⟨c, rfl, hdialogs⟩
    · exact finishing_obeys hc h hpre (hleaf.begins options) rfl
    · exact component_begin_obeys hc hdialogs h hpre options
  | advance =>
    rcases hlib.leaf_or_component with hleaf | ⟨c, rfl, hdialogs⟩
    · exact finishing_obeys hc h (children_eq_nil hf h.dialog hleaf.hosts) hleaf.advances rfl
    · exact component_advance_obeys hc hdialogs h
  | resume reason result =>
    rcases hlib.leaf_or_component with hleaf | ⟨c, rfl, hdialogs⟩
    · have hidle := children_eq_nil hf h.dialog hleaf.hosts
      exact finishing_obeys hc h hidle (hleaf.resumes reason result) rfl
    · exact component_resume_obeys hc hdialogs h hm
  | reprompt =>
    rcases hlib.leaf_or_component with hleaf | ⟨c, rfl, hdialogs⟩
    · exact (calm_quiet hleaf.reprompts).obeys s
    · exact component_reprompt_obeys hc hdialogs h hm
  | close reason =>
    rcases hlib.leaf_or_component with hleaf | ⟨c, rfl, hdialogs⟩
    · exact (calm_quiet (hleaf.closes reason)).obeys s
    · have hclose : c.dialog.program (.close reason) = pure () := by
        simp [Dialog.program, Component.dialog, Component.close, hpre.1]
      rw [hclose]
      exact Eval.obeys_pure rfl

theorem call_mute (fuel : Nat) : (call fuel).Mute := by
  intro v d s event hlib
  cases fuel with
  | zero => exact ⟨Eval.obeys_exhausted, Eval.obeys_exhausted⟩
  | succ fuel =>
    constructor
    · refine Eval.obeys_turn (Eval.obeys_entered ?_ (event_obeys hlib event).1)
      intro reason hhook
      cases hhook
    · refine Eval.obeys_turn (Eval.obeys_entered ?_ (event_obeys hlib event).2)
      intro reason hhook
      cases hhook

/-- Hooks of library dialogs leave behind what they should, whatever fuel they are given. -/
theorem call_sound (fuel : Nat) : (call fuel).Sound := by
  induction fuel with
  | zero =>
    intro v d s f rest hook _ _
    exact Eval.obeys_exhausted
  | succ fuel ih =>
    intro v d s f rest hook h hpre
    refine Eval.obeys_turn (Eval.obeys_entered ?_ ?_)
    · intro reason hhook g hg
      have hclose : hook = .close reason := hhook
      subst hclose
      obtain ⟨g', hg', hbare, -⟩ := View.active?_of_shape h.level h.dialog
      obtain rfl : g' = g := Option.some.inj (hg'.symm.trans hg)
      have hidle : g'.bare.children = [] := hbare ▸ hpre.2
      simpa using hidle
    · exact program_obeys (s := { s with journal := [] }) ih (call_mute fuel) hook h hpre

end Engine
end Colloquy
