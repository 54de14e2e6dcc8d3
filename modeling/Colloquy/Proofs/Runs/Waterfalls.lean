import Colloquy.Proofs.Runs.Tale
import Mathlib.Data.List.Basic

/-!
# Waterfalls from begin to end

A waterfall goes from step to step in three ways: in a new turn, when a dialog that a step began
has ended, and at once. Whichever way it goes, and whatever stands over it meanwhile, its frame's
memory says which step is next, with which options, and what was saved so far.
-/
namespace Colloquy
namespace Waterfall
open Engine

/-! ## A call in which a step is run -/

/-- The dialog may be begun by a step: it is in the repertoire, and what it writes when it ends
goes to nothing that the waterfall keeps. -/
def Begins (R : Repertoire) (v : View) (child : String) : Prop :=
  R v child ∧ ∀ d, v.find? child = some d → ∀ binding, d.output = some binding →
    ∀ p, Path.parse binding = .ok p → p.Spares

/-- Each step saves what it will, and then waits, fails, begins a dialog of the repertoire, goes
on or ends. No input is copied to the options. -/
structure Orderly (w : Waterfall) (R : Repertoire) (v : View) : Prop where
  steps : ∀ step ∈ w.steps, ∀ input, (step input).Brief (Begins R v) v
  modest : ∀ step ∈ w.steps, ∀ input t, (step input).Modest v t
  inputs : ∀ b ∈ w.inputs, ∀ p, Path.parse b.target = .ok p → p.keys.head? ≠ some "options"

section
variable (w : Waterfall) (R : Repertoire) (v : View) (base : Stack) (id : String)

/-- What stands over a waterfall after a step: nothing if it waited, and otherwise what the
dialog that it began has become. -/
inductive Stands (σ : StepRun) : Stack → Prop
  | waited (hleft : w.left v σ = .done (.ok .waiting)) : Stands σ []
  | began {above : Stack} {child : String} {given : Option Json}
      (hleft : w.left v σ = Program.begin child given) (hbegins : Begins R v child)
      (hwaits : Waits R v above) (hlowest : above.getLast?.map Frame.id = some child) :
      Stands σ above

/-- The waterfall waits after its last step, with what it keeps. -/
def Paused (options : Option Json) (runs : List StepRun) (t : Turn) : Prop :=
  ∃ σ above m, runs.getLast? = some σ ∧ t.stackAt? v.level = some (above ++ frame id m :: base) ∧
    Remembers options (some (.nat σ.input.index)) (w.saved v runs) m ∧ w.Stands R v σ above

/-- The waterfall has ended in its last step. -/
def Closed (calls : List HookCall) (runs : List StepRun) : Prop :=
  ∃ σ result c, runs.getLast? = some σ ∧ w.left v σ = Program.finish result ∧
    Ended v base id result σ.call ∧ c ∈ calls ∧ c.isAt v.level (base.length + 1) ∧ c.closes

/-- The waterfall has not been told that it ends, and its steps were run in order so far. -/
structure Underway (options : Option Json) (calls : List HookCall) (runs : List StepRun) :
    Prop where
  tale : w.Tale v base id options calls runs
  unclosed : Unclosed v.level (base.length + 1) calls

/-- What has become of a waterfall after these calls. -/
inductive Fate (options : Option Json) (calls : List HookCall) (runs : List StepRun) (t : Turn) :
    Prop
  | pauses (hunder : w.Underway v base id options calls runs)
      (hpaused : w.Paused R v base id options runs t) : Fate options calls runs t
  | ends (htale : w.Tale v base id options calls runs) (hclosed : w.Closed v base id calls runs) :
      Fate options calls runs t

/-- What has become of a waterfall when more calls have been made than these. -/
def Becomes (options : Option Json) (calls : List HookCall) (s s' : Session) : Prop :=
  ∃ more runs, s'.calls = s.calls ++ more ∧
    w.Fate R v base id options (calls ++ more) runs s'.turn

/-- In a call of this hook with this turn, the program runs a step, which is the next one, with
what was led to. -/
structure Visit (options : Option Json) (calls : List HookCall) (runs : List StepRun) (hook : Hook)
    (p : Program TurnResult) (t : Turn) (reason : Reason) (result : Option Json) : Prop where
  turning : w.dialog.Turning hook p
  counted : (HookCall.of v w.dialog t hook).runsStep
  active : ∃ f, t.stackAt? v.level = some (f :: base) ∧ f.id = id
  running : ∃ found m index, t.Restacked v.level (frame id m :: base) found ∧
    Remembers options index (w.saved v runs) m ∧
    p.stretch v t = (w.runStep runs.length reason result).stretch v found
  leads : w.Leads v base id (calls ++ [.of v w.dialog t hook]) runs.getLast?
    (.of v w.dialog t hook) ⟨runs.length, options, result, reason⟩

/-- With this much fuel for what it makes, a call in which a step is run continues the tale. -/
def Telling (n : Nat) : Prop :=
  ∀ ⦃options calls runs hook p t reason result r after⦄,
    w.Underway v base id options calls runs →
    w.Visit v base id options calls runs hook p t reason result →
    interpret (call n) n w.dialog v p { turn := t } = some (.ok r, after) →
    ∃ runs', w.Fate R v base id options (calls ++ .of v w.dialog t hook :: after.calls) runs'
      after.turn

end

section
variable {w : Waterfall} {R : Repertoire} {v : View} {base : Stack} {id : String} {n : Nat}
  {options : Option Json} {calls more : List HookCall} {runs : List StepRun} {s s' : Session}
  {r : TurnResult} {σ : StepRun} {m : Object} {child : String} {given : Option Json}

/-- Calls for other frames change nothing for a waterfall that is under way. -/
theorem Underway.elsewhere (h : w.Underway v base id options calls runs)
    (hmore : ∀ c ∈ more, c.isAt v.level (base.length + 1) = false) :
    w.Underway v base id options (calls ++ more) runs := by
  obtain ⟨hnone, hopen⟩ := visits_elsewhere hmore
  exact ⟨h.tale.extend (visits_append_nil h.unclosed hnone),
    List.forall_mem_append.mpr ⟨h.unclosed, hopen⟩⟩

theorem isAt_of_stackAt? {t : Turn} {f : Frame} (ht : t.stackAt? v.level = some (f :: base))
    (d : Dialog) (hook : Hook) : (HookCall.of v d t hook).isAt v.level (base.length + 1) := by
  simp [HookCall.isAt, HookCall.depth, Turn.depth_of_stackAt? ht]

/-- What a dialog that may be begun writes when it ends goes to nothing that is kept. -/
theorem Remembers.outputs {index : Option Json} {kept m' : Object} {d : Dialog}
    {result : Option Json} (hm : Remembers options index kept m)
    (hspares : ∀ binding, d.output = some binding → ∀ p, Path.parse binding = .ok p → p.Spares)
    (h : Outputs d result m m') : Remembers options index kept m' := by
  obtain rfl | ⟨binding, value, p, hout, -, hp, hscope, hwrite⟩ := h
  · exact hm
  · cases hwritten : Object.writeAt? p.keys value m with
    | none => simp [Path.write, hwritten] at hwrite
    | some written =>
      obtain rfl : written = m' := by simpa [Path.write, hwritten] using hwrite
      exact hm.spared (hspares binding hout p hp) hscope hwritten

theorem Orderly.stepAt (hw : w.Orderly R v) (input : StepInput) :
    (w.stepAt input).Brief (Begins R v) v ∧ ∀ t, (w.stepAt input).Modest v t := by
  unfold Waterfall.stepAt
  split
  · exact ⟨fun _ => .finish input.result, fun _ => trivial⟩
  · next step hstep =>
    have hmem := List.mem_of_getElem? hstep
    exact ⟨(hw.steps step hmem input).limitNext _,
      fun t => Program.modest_limitNext (hw.modest step hmem input t) _⟩

/-- What does not end the waterfall is a step of it. -/
theorem index_lt (h : ∀ result, w.left v σ ≠ Program.finish result) :
    σ.input.index < w.steps.length := by
  by_contra hpast
  refine h σ.input.result ?_
  rw [left, Waterfall.stepAt, List.getElem?_eq_none (Nat.le_of_not_lt hpast)]
  rfl

/-- A waterfall that goes on, in whatever call, runs the step after its last. -/
theorem goesOn {hook : Hook} {p : Program TurnResult} {t : Turn} {after : Session}
    (ih : w.Telling R v base id n) (hunder : w.Underway v base id options calls runs)
    (hlast : runs.getLast? = some σ)
    (hm : Remembers options (some (.nat σ.input.index)) (w.saved v runs) m)
    (hu : t.stackAt? v.level = some (frame id m :: base)) (hturning : w.dialog.Turning hook p)
    (hcounted : (HookCall.of v w.dialog t hook).runsStep) {reason : Reason} {result : Option Json}
    (hresumes : p.stretch v t = (w.resume reason result).stretch v t)
    (hleads : w.Leads v base id (calls ++ [.of v w.dialog t hook]) (some σ)
      (.of v w.dialog t hook) ⟨runs.length, options, result, reason⟩)
    (h : interpret (call n) n w.dialog v p { turn := t } = some (.ok r, after)) :
    ∃ runs', w.Fate R v base id options (calls ++ .of v w.dialog t hook :: after.calls) runs'
      after.turn := by
  refine ih hunder ⟨hturning, hcounted, ⟨_, hu, rfl⟩, ⟨t, m, _, .refl hu, hm, ?_⟩,
    hlast ▸ hleads⟩ h
  rw [hresumes, w.stretch_resume hu hm, hunder.tale.index_last hlast]

/-- A waterfall that is resumed goes on. -/
theorem resumed (ih : ∀ k < n, w.Telling R v base id k)
    (hunder : w.Underway v base id options calls runs) (hlast : runs.getLast? = some σ)
    (hm : Remembers options (some (.nat σ.input.index)) (w.saved v runs) m)
    (hu : s.turn.stackAt? v.level = some (frame id m :: base)) {reason : Reason}
    {result : Option Json}
    (hleads : w.Leads v base id (calls ++ [.of v w.dialog s.turn (.resume reason result)])
      (some σ) (.of v w.dialog s.turn (.resume reason result))
      ⟨runs.length, options, result, reason⟩)
    (h : call n v w.dialog (.resume reason result) s = some (.ok r, s')) :
    w.Becomes R v base id options calls s s' := by
  obtain ⟨k, inner, rfl, hrun, rfl⟩ := call_ok h
  obtain ⟨runs', hfate⟩ := goesOn (ih k (Nat.lt_succ_self k)) hunder hlast hm hu
    (.resume reason result) rfl rfl hleads hrun
  exact ⟨_, runs', Session.calls_called _ _ _ _ _, hfate⟩

/-- When the dialog that a step began has come to what it comes to, either it waits or the
waterfall is resumed. -/
theorem handed (hd : v.find? id = some w.dialog) (ih : ∀ k < n, w.Telling R v base id k)
    (hunder : w.Underway v base id options calls runs) (hlast : runs.getLast? = some σ)
    (hleft : w.left v σ = Program.begin child given) (hbegins : Begins R v child)
    (hm : Remembers options (some (.nat σ.input.index)) (w.saved v runs) m) {u : Stack}
    (hu : s.turn.stackAt? v.level = some u)
    (hcomes : Comes R v (frame id m :: base) child n s r s') :
    w.Becomes R v base id options calls s s' := by
  cases hcomes with
  | @stays above more _ hwaits hlowest hturn hcalls hover =>
    exact ⟨more, runs, hcalls, .pauses (hunder.elsewhere fun c hc => (hover c hc).elsewhere)
      ⟨σ, above, m, hlast, hturn.stackAt? hu, hm, .began hleft hbegins hwaits hlowest⟩⟩
  | @ends k f d result _ before after b s₁ s₂ _ hk hid hdchild hordinary hturn hfinish hafter
      hturn' hcalls hover hb hended =>
    have hs₁ := hturn.stackAt? hu
    obtain ⟨m', told, houtputs, habove, htold, hresume⟩ :=
      finish_above hs₁ (hid ▸ hdchild) hordinary rfl hd hfinish
    have hm' := hm.outputs (hbegins.2 d hdchild) houtputs
    -- until the child has been told that it ends, nothing is called but what is over the waterfall
    have hclosing : ∀ c ∈ before ++ [closing v d s₁.turn], Over v (frame id m :: base) c :=
      List.forall_mem_append.mpr ⟨hover, List.forall_mem_singleton.mpr
        (over_of_stackAt? hs₁ (by simp) d _)⟩
    have hmem : σ.call ∈ calls :=
      mem_of_mem_visits (hunder.tale.visited ▸ List.mem_map_of_mem (List.mem_of_getLast? hlast))
    have hbetween (c : HookCall) :
        [σ.call, b, c].Sublist (calls ++ (before ++ [closing v d s₁.turn]) ++ [c]) := by
      have hbefore : [b].Sublist (before ++ [closing v d s₁.turn]) :=
        List.singleton_sublist.mpr (List.mem_append_left _ hb)
      exact ((List.singleton_sublist.mpr hmem).append hbefore).append (.refl _)
    have honly (result' : Option Json) :
        Ended v (frame id m :: base) child result' b ↔ result' = result :=
      ⟨fun h => h.unique hended, fun h => h ▸ hended⟩
    obtain ⟨more, runs', hmore, hfate⟩ := resumed (fun j hj => ih j (hj.trans hk))
      (hunder.elsewhere fun c hc => (hclosing c hc).elsewhere) hlast hm' (habove.stackAt? hs₁)
      (.ended hleft rfl rfl honly (hbetween _)) hresume
    rw [hmore, htold, List.append_assoc] at hafter
    refine ⟨before ++ after, runs', hcalls, ?_⟩
    rw [← List.append_cancel_left hafter, hturn', ← List.append_assoc before,
      ← List.append_assoc calls]
    exact hfate

/-- When the waterfall itself is ended, its frame is told so, and no step is run any more. -/
theorem finished (hd : v.find? id = some w.dialog) (hordinary : w.dialog.Ordinary)
    (hunder : w.Underway v base id options calls runs) (hlast : runs.getLast? = some σ)
    {result : Option Json} (hleft : w.left v σ = Program.finish result)
    (hended : Ended v base id result σ.call)
    (hu : s.turn.stackAt? v.level = some (frame id m :: base))
    (h : finish (call n) v result s = some (.ok r, s')) :
    w.Becomes R v base id options calls s s' := by
  obtain ⟨more, hmore⟩ := finish_calls hu hd hordinary h
  have hat : (closing v w.dialog s.turn).isAt v.level (base.length + 1) :=
    isAt_of_stackAt? hu w.dialog _
  have hsame := visits_append_nil hunder.unclosed (visits_closed hat rfl more)
  exact ⟨_, runs, hmore, .ends (hunder.tale.extend hsame) ⟨σ, result, _, hlast, hleft, hended,
    List.mem_append_right _ List.mem_cons_self, hat, rfl⟩⟩

/-- What comes of the operation that the last step ended with. -/
theorem left_becomes (hR : R.Closed) (hd : v.find? id = some w.dialog)
    (hordinary : w.dialog.Ordinary) (ih : ∀ k < n, w.Telling R v base id k)
    (hunder : w.Underway v base id options calls runs) (hlast : runs.getLast? = some σ)
    (hending : (w.left v σ).Ending (Begins R v))
    (hu : s.turn.stackAt? v.level = some (frame id m :: base))
    (hm : σ.input.index < w.steps.length →
      Remembers options (some (.nat σ.input.index)) (w.saved v runs) m)
    (hended : ∀ result, w.left v σ = Program.finish result → Ended v base id result σ.call)
    (h : interpret (call n) n w.dialog v (w.left v σ) s = some (.ok r, s')) :
    w.Becomes R v base id options calls s s' := by
  generalize hleft : w.left v σ = ending at h hending
  cases hending with
  | wait =>
    obtain ⟨-, rfl⟩ := Prod.mk.inj (Option.some.inj h)
    have hm := hm (index_lt fun result hresult => by cases hleft.symm.trans hresult)
    refine ⟨[], runs, (List.append_nil _).symm, ?_⟩
    rw [List.append_nil]
    exact .pauses hunder ⟨σ, [], m, hlast, hu, hm, .waited hleft⟩
  | fail e => cases (Prod.mk.inj (Option.some.inj h)).1
  | begin hbegins given =>
    have hm := hm (index_lt fun result hresult => by cases hleft.symm.trans hresult)
    rw [Program.begin, interpret_run] at h
    exact handed hd ih hunder hlast hleft hbegins hm hu ((sound hR n).begins hbegins.1 hu h)
  | next result =>
    have hm := hm (index_lt fun result hresult => by cases hleft.symm.trans hresult)
    rw [Waterfall.next, interpret_run] at h
    exact resumed ih hunder hlast hm hu (.advanced hleft rfl rfl rfl) h
  | finish result =>
    rw [Program.finish, interpret_run] at h
    exact finished hd hordinary hunder hlast hleft (hended result hleft) hu h

/-- By induction on the fuel: a step that goes on, and the waterfall when it is resumed, have less
of it for the next step. -/
theorem telling (hR : R.Closed) (hw : w.Orderly R v) (hd : v.find? id = some w.dialog) (n : Nat) :
    w.Telling R v base id n := by
  induction n using Nat.strongRecOn with
  | ind n ih =>
    intro options calls runs hook p t reason result r after hunder hvisit h
    obtain ⟨f, ht, hid⟩ := hvisit.active
    obtain ⟨found, m, index, hfound, hm, hstretch⟩ := hvisit.running
    obtain ⟨t', m', index', hbefore, hm', hindex, hstep⟩ :=
      w.stretch_runStep (hfound.stackAt? ht) hm runs.length reason result
    have hfound' := hfound.trans hbefore
    have ht' := hfound'.stackAt? ht
    let σ : StepRun := ⟨.of v w.dialog t hook, ⟨runs.length, options, result, reason⟩, t'⟩
    have hrun : p.stretch v t = (w.stepAt σ.input).stretch v σ.turn := hstretch.trans hstep
    obtain ⟨hbrief, hmodest⟩ := hw.stepAt σ.input
    obtain ⟨m₁, hsaved, hm₁⟩ := hm'.stretch (hmodest t') ht'
    -- the step is one more of the tale
    have hat := isAt_of_stackAt? ht w.dialog hook
    have hcloses : σ.call.closes = false := by cases hvisit.turning <;> rfl
    have htold : w.Told v base id options (calls ++ [σ.call]) runs σ :=
      ⟨rfl, rfl, ⟨p, hvisit.turning, hrun⟩, ⟨m', hfound'⟩, stretch_values ht' hm', hvisit.leads⟩
    have hunder' : w.Underway v base id options (calls ++ [σ.call]) (runs ++ [σ]) :=
      ⟨hunder.tale.concat hunder.unclosed hat hvisit.counted hcloses htold,
        List.forall_mem_append.mpr ⟨hunder.unclosed,
          List.forall_mem_singleton.mpr (by rw [hcloses]; simp)⟩⟩
    obtain ⟨s₁, hs₁, hcalls, hwhole⟩ := exists_stretched (call n) n w.dialog v p t
    rw [hrun] at hs₁ hwhole
    have hu : s₁.turn.stackAt? v.level = some (frame id m₁ :: base) :=
      (hs₁ ▸ hsaved.stackAt? ht' :)
    rw [hwhole] at h
    have hended (result' : Option Json) (hleft : w.left v σ = Program.finish result') :
        Ended v base id result' σ.call :=
      ⟨w.dialog, p, f, hd, rfl, hvisit.turning, ht, hid,
        .itself ((congrArg Stretch.left hrun).trans hleft)⟩
    obtain ⟨more, runs', hmore, hfate⟩ := left_becomes hR hd (w.simple hw.steps).ordinary ih
      hunder' List.getLast?_concat (hbrief t') hu
      (fun hlt => by rw [saved_concat, ← hindex hlt]; exact hm₁) hended h
    rw [hcalls, List.nil_append] at hmore
    rw [List.append_assoc, ← hmore] at hfate
    exact ⟨runs', hfate⟩

/-! ## From begin to end -/

/-- A waterfall that has begun has run its first step, and those that followed at once. -/
theorem begun (hR : R.Closed) (hw : w.Orderly R v) (hp : lookUp v id = .ok w.dialog)
    (h : Engine.begin (call n) v id options s = some (.ok r, s')) :
    ∃ base calls runs, s.turn.stackAt? v.level = some base ∧ s'.calls = s.calls ++ calls ∧
      w.Fate R v base id options calls runs s'.turn := by
  obtain ⟨d, inputs, hprepared⟩ | ⟨e, hunprepared⟩ := prepared_or v s.turn id
  · obtain rfl := Except.ok.inj (hprepared.found.symm.trans hp)
    cases hu : s.turn.stackAt? v.level with
    | none =>
      rw [begin_detached hu hprepared] at h
      cases (Prod.mk.inj (Option.some.inj h)).1
    | some base =>
      obtain ⟨m, hwrites, hcall⟩ := begin_told hprepared Kind.noConfusion hu h
      obtain ⟨k, inner, rfl, hrun, rfl⟩ := call_ok hcall
      have ht := Turn.stackAt?_put hu (frame id m :: base)
      have hoptions : m.find? "options" = options := by
        refine options_seeded Kind.noConfusion hwrites fun entry hentry p hparse => ?_
        obtain ⟨b, hb, htarget, -⟩ := readInputs_targets hprepared.bound entry hentry
        exact hw.inputs b hb p (htarget ▸ hparse)
      have hm : Remembers options (m.find? "stepIndex") .empty
          (m.insert "values" (.object .empty)) := ⟨by simpa using hoptions, by simp, by simp⟩
      obtain ⟨runs, hfate⟩ := telling hR hw (find?_of_lookUp hp) k
        ⟨.nil w v base id options, List.forall_mem_nil _⟩
        ⟨.begin options, rfl, ⟨_, ht, rfl⟩,
          ⟨_, _, _, Turn.restacked_put _ _ _, hm, w.stretch_begin ht⟩, .begun rfl rfl rfl⟩ hrun
      exact ⟨base, _, runs, rfl, Session.calls_called _ _ _ _ _, hfate⟩
  · rw [begin_of_unprepared hunprepared] at h
    cases (Prod.mk.inj (Option.some.inj h)).1

/-- A message goes to the step that waits, or to the dialog that a step began. -/
theorem paused_message (hR : R.Closed) (hw : w.Orderly R v) (hd : v.find? id = some w.dialog)
    (hunder : w.Underway v base id options calls runs)
    (hpaused : w.Paused R v base id options runs s.turn) (hmessage : s.turn.activity.isMessage)
    (h : Engine.advance (call n) v s = some (.ok r, s')) :
    w.Becomes R v base id options calls s s' := by
  obtain ⟨σ, above, m, hlast, hu, hm, hstands⟩ := hpaused
  cases hstands with
  | waited hleft =>
    rw [advance_active (Turn.active?_of_stackAt? hu) hd] at h
    obtain ⟨k, inner, rfl, hrun, rfl⟩ := call_ok h
    obtain ⟨runs', hfate⟩ := goesOn (telling hR hw hd k) hunder hlast hm hu .advance hmessage
      (w.stretch_advance_message hmessage) (.waited hleft rfl hmessage rfl rfl) hrun
    exact ⟨_, runs', Session.calls_called _ _ _ _ _, hfate⟩
  | began hleft hbegins hwaits hlowest =>
    exact handed hd (fun k _ => telling hR hw hd k) hunder hlast hleft hbegins hm hu
      ((sound hR n).advances hwaits hlowest hu h)

/-- An activity that is no message runs no step, and leaves everything as it is. -/
theorem paused_other (hw : w.Orderly R v) (hd : v.find? id = some w.dialog)
    (hpaused : w.Paused R v base id options runs s.turn)
    (hother : s.turn.activity.isMessage = false)
    (h : Engine.advance (call n) v s = some (.ok r, s')) :
    ∃ more, s'.calls = s.calls ++ more ∧ s'.turn = s.turn ∧
      visits v.level (base.length + 1) more = [] ∧ Unclosed v.level (base.length + 1) more := by
  obtain ⟨σ, above, m, hlast, hu, hm, hstands⟩ := hpaused
  cases hstands with
  | waited hleft =>
    rw [advance_active (Turn.active?_of_stackAt? hu) hd] at h
    obtain ⟨k, inner, rfl, -, -⟩ := call_ok h
    have hwaits : (w.dialog.program .advance).stretch v s.turn =
        ⟨.done (.ok .waiting), s.turn, []⟩ := (w.simple hw.steps).other hother
    rw [call_of_done hwaits] at h
    obtain ⟨-, rfl⟩ := Prod.mk.inj (Option.some.inj h)
    refine ⟨_, Session.calls_called _ _ _ _ _, rfl, ?_, List.forall_mem_singleton.mpr ?_⟩
    · exact visits_idle rfl hother
    · exact Bool.and_false _
  | began hleft hbegins hwaits hlowest =>
    obtain ⟨-, hturn, more, hmore, hall⟩ := advance_other hwaits hu hother h
    have helsewhere := visits_elsewhere fun c hc => (hall c hc).2.elsewhere
    exact ⟨more, hmore, hturn, helsewhere.1, helsewhere.2⟩

/-- Whatever has become of a waterfall, this is what becomes of it when its stack is continued. -/
theorem Fate.continued (hfate : w.Fate R v base id options calls runs s.turn) (hR : R.Closed)
    (hw : w.Orderly R v) (hd : v.find? id = some w.dialog)
    (h : Engine.advance (call n) v s = some (.ok r, s')) {more : List HookCall}
    (hmore : s'.calls = s.calls ++ more) :
    (∃ runs', w.Fate R v base id options (calls ++ more) runs' s'.turn) ∧
      (s.turn.activity.isMessage = false →
        visits v.level (base.length + 1) (calls ++ more) =
          visits v.level (base.length + 1) calls) := by
  cases hfate with
  | pauses hunder hpaused =>
    by_cases hmessage : s.turn.activity.isMessage
    · obtain ⟨more', runs', hmore', hfate⟩ := paused_message hR hw hd hunder hpaused hmessage h
      obtain rfl := List.append_cancel_left (hmore'.symm.trans hmore)
      exact ⟨⟨runs', hfate⟩, fun hother => absurd hmessage (hother ▸ Bool.false_ne_true)⟩
    · obtain ⟨more', hmore', hturn, hnone, hopen'⟩ :=
        paused_other hw hd hpaused (Bool.not_eq_true _ ▸ hmessage) h
      obtain rfl := List.append_cancel_left (hmore'.symm.trans hmore)
      have hsame := visits_append_nil hunder.unclosed hnone
      refine ⟨⟨runs, .pauses ⟨hunder.tale.extend hsame, List.forall_mem_append.mpr
        ⟨hunder.unclosed, hopen'⟩⟩ ?_⟩, fun _ => hsame⟩
      rwa [hturn]
  | ends htale hclosed =>
    obtain ⟨σ, result, c, hlast, hleft, hended, hc, hat, hcloses⟩ := hclosed
    have hsame := visits_append_of_closed hc hat hcloses more
    exact ⟨⟨runs, .ends (htale.extend hsame) ⟨σ, result, c, hlast, hleft, hended,
      List.mem_append_left _ hc, hat, hcloses⟩⟩, fun _ => hsame⟩

/-- What goes on elsewhere changes nothing for a waterfall. -/
theorem Fate.elsewhere {t t' : Turn} (h : w.Fate R v base id options calls runs t)
    (hstack : t'.stackAt? v.level = t.stackAt? v.level) :
    w.Fate R v base id options calls runs t' := by
  cases h with
  | pauses hunder hpaused =>
    obtain ⟨σ, above, m, hlast, hu, hm, hstands⟩ := hpaused
    exact .pauses hunder ⟨σ, above, m, hlast, hstack.trans hu, hm, hstands⟩
  | ends htale hclosed => exact .ends htale hclosed

/-- By induction on the turns. -/
theorem Fate.rounds {t t' : Turn} {rounds : List Round}
    (hrounds : Rounds v t rounds t') (hfate : w.Fate R v base id options calls runs t)
    (hR : R.Closed) (hw : w.Orderly R v) (hd : v.find? id = some w.dialog) :
    (∃ runs', w.Fate R v base id options (calls ++ rounds.flatMap Round.calls) runs' t') ∧
      ∀ before round after, rounds = before ++ round :: after →
        round.activity.isMessage = false →
        visits v.level (base.length + 1) (calls ++ before.flatMap Round.calls ++ round.calls) =
          visits v.level (base.length + 1) (calls ++ before.flatMap Round.calls) := by
  induction hrounds with
  | none hsame =>
    refine ⟨⟨runs, ?_⟩, fun before round after hnone => by cases before <;> cases hnone⟩
    rw [List.flatMap_nil, List.append_nil]
    exact hfate.elsewhere hsame.stack
  | @more rounds a calls' t₁ t' found left fuel r before hfound hrun hcalls hleft ih =>
    obtain ⟨⟨runs', hfate'⟩, hquiet⟩ := ih
    obtain ⟨⟨runs'', hfate''⟩, hother⟩ :=
      (hfate'.elsewhere hfound.stack).continued hR hw hd hrun hcalls
    refine ⟨⟨runs'', ?_⟩, fun before round after heq => ?_⟩
    · rw [List.flatMap_append, ← List.append_assoc]
      simpa using hfate''.elsewhere hleft.stack
    · rcases split_of_concat heq with ⟨rfl, rfl⟩ | ⟨after, heq⟩
      · rw [← hfound.activity]
        exact hother
      · exact hquiet before round after heq

/-- Only the last step that was run can have ended the waterfall. -/
theorem Tale.unfinished {after : List StepRun} {τ : StepRun}
    (h : w.Tale v base id options calls (before ++ σ :: τ :: after)) (result : Option Json) :
    w.left v σ ≠ Program.finish result := by
  have hτ := (h.told (before ++ [σ]) τ after (by simp)).leads
  rw [List.getLast?_concat] at hτ
  intro hfinish
  cases hτ with
  | waited hleft => cases hleft.symm.trans hfinish
  | advanced hleft => cases hleft.symm.trans hfinish
  | ended hleft => cases hleft.symm.trans hfinish

theorem Fate.tale {t : Turn} (h : w.Fate R v base id options calls runs t) :
    w.Tale v base id options calls runs := by
  cases h with
  | pauses hunder _ => exact hunder.tale
  | ends htale _ => exact htale

/-- No step is run past the one after the last, which ends the waterfall with the result that it
would have received. -/
theorem Fate.past_last {t : Turn} (h : w.Fate R v base id options calls runs t)
    (hσ : σ ∈ runs) : σ.input.index ≤ w.steps.length ∧
      (σ.input.index = w.steps.length → Ended v base id σ.input.result σ.call) := by
  have htale := h.tale
  obtain ⟨before, after, rfl⟩ := List.append_of_mem hσ
  constructor
  · rw [(htale.told before σ after rfl).index]
    rcases List.eq_nil_or_concat before with rfl | ⟨before, τ, rfl⟩
    · exact Nat.zero_le _
    · rw [List.concat_eq_append, List.append_assoc, List.singleton_append] at htale
      have hτ := index_lt htale.unfinished
      rw [(htale.told before τ (σ :: after) rfl).index] at hτ
      rw [List.concat_eq_append, List.length_append]
      exact hτ
  · intro hlength
    have hleft : w.left v σ = Program.finish σ.input.result := by
      rw [left, Waterfall.stepAt, List.getElem?_eq_none (Nat.le_of_eq hlength.symm)]
      rfl
    have hlast : (before ++ σ :: after).getLast? = some σ := by
      cases after with
      | nil => exact List.getLast?_concat
      | cons τ after => exact absurd hleft (htale.unfinished _)
    cases h with
    | pauses _ hpaused =>
      obtain ⟨τ, above, m, hτ, -, -, hstands⟩ := hpaused
      obtain rfl := Option.some.inj (hτ.symm.trans hlast)
      cases hstands with
      | waited hwaits => cases hwaits.symm.trans hleft
      | began hbegan => cases hbegan.symm.trans hleft
    | ends _ hclosed =>
      obtain ⟨τ, result, c, hτ, hfinish, hended, -⟩ := hclosed
      obtain rfl := Option.some.inj (hτ.symm.trans hlast)
      cases hfinish.symm.trans hleft
      exact hended

/-- A waterfall begins, on a stack at any level, and is continued in any number of turns, each
kept and read again for the next. As long as its frame is there, and until it is told that it
ends, the calls in which it is called on to run steps run the steps in order, each of them with
the options that it was begun with, with what was saved before, and with what the step before
led to. -/
theorem rounds_in_order (hR : R.Closed) (hw : w.Orderly R v) (hp : lookUp v id = .ok w.dialog)
    {s₀ : Session} (hbegin : Engine.begin (call n) v id options s = some (.ok r, s₀))
    {rounds : List Round} {t : Turn} (hrounds : Rounds v s₀.turn rounds t) :
    ∃ base calls runs, s.turn.stackAt? v.level = some base ∧ s₀.calls = s.calls ++ calls ∧
      w.Fate R v base id options (calls ++ rounds.flatMap Round.calls) runs t ∧
      (∀ σ ∈ runs, σ.input.index ≤ w.steps.length ∧
        (σ.input.index = w.steps.length → Ended v base id σ.input.result σ.call)) ∧
      ∀ before round after, rounds = before ++ round :: after →
        round.activity.isMessage = false →
        visits v.level (base.length + 1) (calls ++ before.flatMap Round.calls ++ round.calls) =
          visits v.level (base.length + 1) (calls ++ before.flatMap Round.calls) := by
  obtain ⟨base, calls, runs, hu, hcalls, hfate⟩ := begun hR hw hp hbegin
  obtain ⟨⟨runs', hfate'⟩, hquiet⟩ := hfate.rounds hrounds hR hw (find?_of_lookUp hp)
  exact ⟨base, calls, runs', hu, hcalls, hfate', fun _ => hfate'.past_last, hquiet⟩

end

def question : Prompt := { id := "name", recognize := Recognizer.text }

/-- A waterfall that asks for a name, saves the answer and goes on past its last step. -/
def survey : Waterfall where
  id := "survey"
  steps := [
    fun _ => Program.begin question.id (some (PromptOptions.mk "Who are you?" none).toJson),
    fun input => do save "name" (input.result.getD .null); next (some (.bool true))]

def surveys : View where
  own := (Table.empty.insert question.id question.dialog).insert survey.id survey.dialog

def naming : Repertoire := fun v id => v = surveys ∧ id = question.id

theorem naming_closed : naming.Closed := by
  rintro v id ⟨rfl, rfl⟩
  exact ⟨_, rfl, .prompt _⟩

theorem survey_orderly : survey.Orderly naming surveys := by
  have hbegins : Begins naming surveys question.id := by
    refine ⟨⟨rfl, rfl⟩, fun d hd binding hbinding => ?_⟩
    obtain rfl := Option.some.inj hd
    cases hbinding
  refine ⟨List.forall_mem_cons.mpr ⟨?_, List.forall_mem_singleton.mpr ?_⟩,
    List.forall_mem_cons.mpr ⟨?_, List.forall_mem_singleton.mpr ?_⟩, List.forall_mem_nil _⟩
  · exact fun _ _ => .begin hbegins _
  · exact fun input => (Program.local_change _).brief fun _ _ => .next _
  · exact fun _ _ => trivial
  · exact fun input t => (modest_save _ _ _ t).bind fun _ _ => trivial

/-- The survey is begun, and in the next turn the name is given. The second step gets it. -/
theorem rounds_in_order_survey :
    ∃ r s₀ rounds t runs, Engine.begin (call 3) surveys "survey" none
        { turn := { activity := .message "c" "hello" } } = some (.ok r, s₀) ∧
      activities rounds = [.message "c" "Ann"] ∧ Rounds surveys s₀.turn rounds t ∧
      (runs.map fun σ => σ.input.result).map (fun result => result.bind Json.string?) =
        [none, some "Ann", none] ∧
      survey.Fate naming surveys [] "survey" none (s₀.calls ++ rounds.flatMap Round.calls) runs
        t := by
  have hok : ((Engine.begin (call 3) surveys "survey" none
      { turn := { activity := .message "c" "hello" } }).bind fun begun =>
        (play 6 surveys begun.2.turn [.message "c" "Ann"]).map fun played =>
          (begun.1.isOk, ((visits 0 1 (begun.2.calls ++ played.1.flatMap Round.calls)).map
            HookCall.result?).map fun result => result.bind Json.string?)) =
      some (true, [none, some "Ann", none]) := by
    decide +kernel
  obtain ⟨⟨outcome, s₀⟩, hbegin, hok⟩ := Option.bind_eq_some_iff.mp hok
  obtain ⟨⟨rounds, t⟩, hplay, hok⟩ := Option.map_eq_some_iff.mp hok
  obtain ⟨hbegun, hresults⟩ := Prod.mk.inj hok
  cases outcome with
  | error e => cases hbegun
  | ok r =>
    obtain ⟨hrounds, hactivities⟩ := rounds_of_play hplay
    obtain ⟨base, calls, runs, hbase, hcalls, hfate, -⟩ :=
      rounds_in_order naming_closed survey_orderly rfl hbegin hrounds
    obtain rfl : [] = base := Option.some.inj hbase
    obtain rfl : s₀.calls = calls := hcalls
    refine ⟨r, s₀, rounds, t, runs, hbegin, hactivities, hrounds, ?_, hfate⟩
    rw [hfate.tale.results]
    exact hresults

/-- A dialog whose result is written where the waterfall below keeps the index of its step. -/
def skip : Waterfall where
  id := "skip"
  steps := [fun _ => Program.finish (some (.nat 1))]
  output := some "dialog.stepIndex"

/-- A waterfall whose last step leaves a note, after one that only waits. -/
def plan : Waterfall where
  id := "plan"
  steps := [
    fun _ => Program.begin skip.id,
    fun _ => pure .waiting,
    fun _ => do Program.record (.string "last"); return .waiting]

def plans : View where
  own := (Table.empty.insert plan.id plan.dialog).insert skip.id skip.dialog

def skipping : Repertoire := fun v id => v = plans ∧ id = skip.id

/-- A dialog that writes to the index of the step when it ends makes the waterfall leave out a
step. -/
theorem step_left_out :
    skipping.Closed ∧ plan.dialog.Stocked skipping plans ∧
      (∀ step ∈ plan.steps, ∀ input t, (step input).Modest plans t) ∧
      lookUp plans "plan" = .ok plan.dialog ∧
      ∃ r s₀, Engine.begin (call 4) plans "plan" none
          { turn := { activity := .message "c" "hello" } } = some (.ok r, s₀) ∧
        ∀ runs, ¬ plan.Tale plans [] "plan" none s₀.calls runs := by
  have hstocked : skip.dialog.Stocked skipping plans :=
    .waterfall _ (List.forall_mem_singleton.mpr fun _ _ => .finish _)
  refine ⟨?_, .waterfall _ ?_, ?_, rfl, ?_⟩
  · rintro v id ⟨rfl, rfl⟩
    exact ⟨_, rfl, hstocked⟩
  · exact List.forall_mem_cons.mpr ⟨fun _ _ => .begin ⟨rfl, rfl⟩ _, List.forall_mem_cons.mpr
      ⟨fun _ _ => .wait, List.forall_mem_singleton.mpr fun _ _ => .wait⟩⟩
  · exact List.forall_mem_cons.mpr ⟨fun _ _ => trivial, List.forall_mem_cons.mpr
      ⟨fun _ _ => trivial, List.forall_mem_singleton.mpr fun _ _ => trivial⟩⟩
  · have hok : (Engine.begin (call 4) plans "plan" none
        { turn := { activity := .message "c" "hello" } }).map (fun begun =>
          begun.1.isOk && (visits 0 1 begun.2.calls).map (fun c =>
            ((plan.dialog.program c.hook).stretch plans c.turn).notes.length) == [0, 1]) =
        some true := by decide +kernel
    obtain ⟨⟨outcome, s₀⟩, hbegin, hok⟩ := Option.map_eq_some_iff.mp hok
    simp only [Bool.and_eq_true, beq_iff_eq] at hok
    cases outcome with
    | error e => cases hok.1
    | ok r =>
      refine ⟨r, s₀, hbegin, fun runs htale => ?_⟩
      have hvisited := hok.2
      rw [show visits 0 1 s₀.calls = _ from htale.visited.symm] at hvisited
      obtain ⟨σ, τ, rfl⟩ : ∃ σ τ, runs = [σ, τ] := by
        refine List.length_eq_two.mp ?_
        simpa using congrArg List.length hvisited
      have hτ := htale.told [σ] τ [] rfl
      obtain ⟨p, hturning, hstretch⟩ := hτ.runs
      have hindex : τ.input.index = 1 := hτ.index
      have hstep : plan.stepAt τ.input = .done (.ok .waiting) := by
        rw [stepAt, hindex]
        rfl
      have hnotes : ((plan.dialog.program τ.call.hook).stretch plans τ.call.turn).notes =
          (p.stretch plans τ.call.turn).notes := by
        generalize τ.call.hook = hook at hturning
        cases hturning <;> rfl
      rw [hstretch, hstep] at hnotes
      simp [hnotes, Program.stretch] at hvisited

end Waterfall
end Colloquy
