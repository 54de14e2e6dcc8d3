import Colloquy.Proofs.Runs.Endings
import Colloquy.Proofs.Runs.Rounds

/-!
# What stands over a frame

A dialog that is begun over a stack, and whatever it begins in turn, either stays over that
stack and waits, or comes to its end over it; then the engine ends it and resumes what is below.
This holds of prompts, of waterfalls with brief steps and of components that begin nothing but
such dialogs, whichever way the turns come to them.
-/
namespace Colloquy

/-! ## Dialogs of a repertoire -/

/-- The ids that may be begun from a view. -/
abbrev Repertoire := View → String → Prop

/-- The dialog is a prompt, a waterfall with brief steps or a component, and begins nothing but
what is in the repertoire. -/
inductive Dialog.Stocked (R : Repertoire) (v : View) : Dialog → Prop
  | prompt (p : Prompt) : Stocked R v p.dialog
  | waterfall (w : Waterfall)
      (hsteps : ∀ step ∈ w.steps, ∀ input, (step input).Brief (R v) v) : Stocked R v w.dialog
  | component (c : Component) (hinitial : R (v.enter c.dialogs) c.initial) :
      Stocked R v c.dialog

/-- All ids of the repertoire mean such dialogs. -/
def Repertoire.Closed (R : Repertoire) : Prop :=
  ∀ v id, R v id → ∃ d, Engine.lookUp v id = .ok d ∧ d.Stocked R v

/-- The dialog has a memory of its own and takes no notice of its end. -/
structure Dialog.Ordinary (d : Dialog) : Prop where
  owning : d.kind ≠ .command
  unnoticed : d.onClose .ended = pure ()

theorem Component.ordinary (c : Component) : c.dialog.Ordinary :=
  ⟨Kind.noConfusion, by simp [dialog, close]⟩

theorem Dialog.Simple.ordinary {begins : String → Prop} {v : View} {d : Dialog}
    (h : d.Simple begins v) : d.Ordinary := ⟨h.owning, h.unnoticed⟩

theorem Dialog.Stocked.simple_or_component {R : Repertoire} {v : View} {d : Dialog}
    (h : d.Stocked R v) :
    d.Simple (R v) v ∨ ∃ c : Component, d = c.dialog ∧ R (v.enter c.dialogs) c.initial := by
  cases h with
  | prompt p => exact .inl p.simple
  | waterfall w hsteps => exact .inl (w.simple hsteps)
  | component c hinitial => exact .inr ⟨c, rfl, hinitial⟩

theorem Dialog.Stocked.ordinary {R : Repertoire} {v : View} {d : Dialog} (h : d.Stocked R v) :
    d.Ordinary := by
  rcases h.simple_or_component with hsimple | ⟨c, rfl, -⟩
  · exact hsimple.ordinary
  · exact c.ordinary

namespace Engine
variable {R : Repertoire} {v : View} {d : Dialog} {s s' : Session} {f g : Frame}
  {u w rest above : Stack} {id : String} {n : Nat} {r : TurnResult} {result : Option Json}
  {m m' : Object}

/-! ## Ending over another frame -/

/-- What a result does to the memory that it is written into: nothing, unless the output binding
leads there. -/
def Outputs (d : Dialog) (result : Option Json) (m m' : Object) : Prop :=
  m' = m ∨ ∃ binding value p, d.output = some binding ∧ result = some value ∧
    Path.parse binding = .ok p ∧ p.scope = .dialog ∧ p.write value m = .ok m'

/-- A result that can be written is not written, or set where the binding says. -/
theorem writeOutput_ok (h : writeOutput v d result s = some (.ok (), s')) :
    s'.journal = s.journal ∧ (s'.turn = s.turn ∨ ∃ binding value p, d.output = some binding ∧
      result = some value ∧ Path.parse binding = .ok p ∧
      (p.scope = .dialog → (s.turn.active? v.level).isSome) ∧
      s.turn.set v.level binding value = (.ok (), s'.turn)) := by
  cases hout : d.output with
  | none =>
    rw [writeOutput_unbound v hout] at h
    obtain ⟨-, rfl⟩ := Prod.mk.inj (Option.some.inj h)
    exact ⟨rfl, .inl rfl⟩
  | some binding =>
    cases result with
    | none =>
      rw [writeOutput_none] at h
      obtain ⟨-, rfl⟩ := Prod.mk.inj (Option.some.inj h)
      exact ⟨rfl, .inl rfl⟩
    | some value =>
      cases hp : Path.parse binding with
      | error e => simp [writeOutput, hout, Eval.bind_apply, hp, Eval.ofExcept] at h
      | ok p =>
        by_cases hskipped : p.scope = .dialog ∧ s.turn.active? v.level = none
        · rw [writeOutput_skipped hout hp hskipped.1 hskipped.2] at h
          obtain ⟨-, rfl⟩ := Prod.mk.inj (Option.some.inj h)
          exact ⟨rfl, .inl rfl⟩
        · have hactive (hscope : p.scope = .dialog) : (s.turn.active? v.level).isSome :=
            Option.isSome_iff_ne_none.mpr fun hidle => hskipped ⟨hscope, hidle⟩
          rw [writeOutput_bound hout hp hactive] at h
          obtain ⟨hset, rfl⟩ := Prod.mk.inj (Option.some.inj h)
          exact ⟨rfl, .inr ⟨binding, value, p, rfl, rfl, hp, hactive, Prod.ext hset rfl⟩⟩

/-- Writing the output changes nothing but scopes and the memory of the active frame. -/
theorem writeOutput_active (hu : s.turn.stackAt? v.level = some (g :: rest))
    (hm : g.memory = some m) (h : writeOutput v d result s = some (.ok (), s')) :
    ∃ m', Outputs d result m m' ∧
      s.turn.Restacked v.level ({ g with memory := some m' } :: rest) s'.turn := by
  have hsame : s.turn.Restacked v.level ({ g with memory := some m } :: rest) s.turn := by
    rw [g.with_memory hm]
    exact .refl hu
  obtain ⟨-, hunchanged | ⟨binding, value, p, hout, hvalue, hp, -, hset⟩⟩ := writeOutput_ok h
  · rw [hunchanged]
    exact ⟨m, .inl rfl, hsame⟩
  · by_cases hscope : p.scope = .dialog
    · rw [Turn.set_owned_eq hu hm hp hscope] at hset
      cases hwrite : p.write value m with
      | error e => simp [hwrite] at hset
      | ok m' =>
        simp only [hwrite, Prod.mk.injEq, true_and] at hset
        rw [← hset]
        exact ⟨m', .inr ⟨binding, value, p, hout, hvalue, hp, hscope, hwrite⟩,
          Turn.restacked_put _ _ _⟩
    · have helsewhere := Turn.set_elsewhere hu hp hscope value
      rw [hset] at helsewhere
      exact ⟨m, .inl rfl, by rwa [g.with_memory hm]⟩

/-- Where no frame is left, nothing but scopes can be written. -/
theorem writeOutput_idle (hu : s.turn.stackAt? v.level = some [])
    (h : writeOutput v d result s = some (.ok (), s')) :
    s.turn.Restacked v.level [] s'.turn := by
  obtain ⟨-, hunchanged | ⟨binding, value, p, -, -, hp, hactive, hset⟩⟩ := writeOutput_ok h
  · rw [hunchanged]
    exact .refl hu
  · have hscope : p.scope ≠ .dialog := by
      intro hscope
      rw [Turn.active?_of_empty hu] at hactive
      cases hactive hscope
    have helsewhere := Turn.set_elsewhere hu hp hscope value
    rwa [hset] at helsewhere

/-- The call that tells a dialog that its frame ends. -/
abbrev closing (v : View) (d : Dialog) (t : Turn) : HookCall := .of v d t (.close .ended)

/-- An end that succeeds: the dialog is told and leaves the stack, its result is written, and
then it is handed over. -/
theorem finish_ok (hu : s.turn.stackAt? v.level = some (f :: rest)) (hd : v.find? f.id = some d)
    (hordinary : d.Ordinary) (h : finish (call n) v result s = some (.ok r, s')) :
    ∃ told after, told.turn = s.turn.put v.level rest ∧
      writeOutput v d result told = some (.ok (), after) ∧
      after.calls = s.calls ++ [closing v d s.turn] ∧
      handOver (call n) v result after = some (.ok r, s') := by
  cases n with
  | zero =>
    have hdepth : s.turn.depth v.level ≠ 0 := by
      rw [Turn.depth_of_stackAt? hu]
      exact Nat.succ_ne_zero rest.length
    simp only [finish, Eval.bind_apply, Eval.turn, if_neg hdepth, endActive,
      Turn.active?_of_stackAt? hu, hd, call, Eval.exhausted] at h
    cases h
  | succ k =>
    rw [finish_unnoticed hu hd hordinary.unnoticed, Eval.bind_apply] at h
    split at h
    · cases h
    · next after hwrite =>
      refine ⟨_, after, rfl, hwrite, ?_, h⟩
      rw [Session.calls, (writeOutput_ok hwrite).1]
      exact Session.calls_called s.turn s.journal [] (closing v d s.turn) (.ok ())
    · cases h

/-- The last dialog of a stack ends it. -/
theorem finish_last (hu : s.turn.stackAt? v.level = some [f]) (hd : v.find? f.id = some d)
    (hordinary : d.Ordinary) (h : finish (call n) v result s = some (.ok r, s')) :
    r = .completed result ∧ s.turn.Restacked v.level [] s'.turn ∧
      s'.calls = s.calls ++ [closing v d s.turn] := by
  obtain ⟨told, after, htold, hwrite, hcalls, hover⟩ := finish_ok hu hd hordinary h
  have hput : s.turn.Restacked v.level [] told.turn := htold ▸ Turn.restacked_put _ _ _
  have hidle := writeOutput_idle (hput.stackAt? hu) hwrite
  have hnone : after.turn.active? v.level = none :=
    Turn.active?_of_empty ((hput.trans hidle).stackAt? hu)
  simp only [handOver, Eval.bind_apply, Eval.turn, hnone] at hover
  obtain ⟨hr, rfl⟩ := Prod.mk.inj (Option.some.inj hover)
  exact ⟨(Except.ok.inj hr).symm, hput.trans hidle, hcalls⟩

/-- A dialog that ends over another has it resumed with the result. -/
theorem finish_above (hu : s.turn.stackAt? v.level = some (f :: g :: rest))
    (hd : v.find? f.id = some d) (hordinary : d.Ordinary) (hm : g.memory = some m) {below : Dialog}
    (hbelow : v.find? g.id = some below)
    (h : finish (call n) v result s = some (.ok r, s')) :
    ∃ m' after, Outputs d result m m' ∧
      s.turn.Restacked v.level ({ g with memory := some m' } :: rest) after.turn ∧
      after.calls = s.calls ++ [closing v d s.turn] ∧
      call n v below (.resume .ended result) after = some (.ok r, s') := by
  obtain ⟨told, after, htold, hwrite, hcalls, hover⟩ := finish_ok hu hd hordinary h
  have hput : s.turn.Restacked v.level (g :: rest) told.turn := htold ▸ Turn.restacked_put _ _ _
  obtain ⟨m', houtputs, hwritten⟩ := writeOutput_active (hput.stackAt? hu) hm hwrite
  have hactive := Turn.active?_of_stackAt? ((hput.trans hwritten).stackAt? hu)
  refine ⟨m', after, houtputs, hput.trans hwritten, hcalls, ?_⟩
  simpa only [handOver, Eval.bind_apply, Eval.turn, hactive, registered, hbelow] using hover

theorem handOver_calls (h : handOver (call n) v result s = some (.ok r, s')) :
    ∃ more, s'.calls = s.calls ++ more := by
  simp only [handOver, Eval.bind_apply, Eval.turn] at h
  cases hactive : s.turn.active? v.level with
  | none =>
    simp only [hactive] at h
    obtain ⟨-, rfl⟩ := Prod.mk.inj (Option.some.inj h)
    exact ⟨[], (List.append_nil _).symm⟩
  | some g =>
    cases hfound : registered v g .resuming with
    | error e =>
      simp only [hactive, hfound] at h
      cases (Prod.mk.inj (Option.some.inj h)).1
    | ok below =>
      simp only [hactive, hfound] at h
      obtain ⟨during, hjournal⟩ := call_journal h
      exact ⟨_, by rw [Session.calls, hjournal, Entry.callsOf_append]; rfl⟩

/-- The calls that an end takes come after those before. -/
theorem finish_calls (hu : s.turn.stackAt? v.level = some (f :: rest))
    (hd : v.find? f.id = some d) (hordinary : d.Ordinary)
    (h : finish (call n) v result s = some (.ok r, s')) :
    ∃ more, s'.calls = s.calls ++ closing v d s.turn :: more := by
  obtain ⟨-, after, -, -, hcalls, hover⟩ := finish_ok hu hd hordinary h
  obtain ⟨more, hmore⟩ := handOver_calls hover
  exact ⟨more, by rw [hmore, hcalls, List.append_assoc]; rfl⟩

/-! ## Over a stack -/

/-- The call is made further in, or for a frame over the stack. -/
def Over (v : View) (u : Stack) (c : HookCall) : Prop :=
  v.level < c.level ∨ (c.level = v.level ∧ u.length < c.depth)

theorem over_of_stackAt? {t : Turn} (ht : t.stackAt? v.level = some w)
    (hlength : u.length < w.length) (d : Dialog) (hook : Hook) : Over v u (.of v d t hook) := by
  refine .inr ⟨rfl, ?_⟩
  rw [HookCall.depth, Turn.depth_of_stackAt? ht]
  exact hlength

theorem Over.below {c : HookCall} (h : Over v (g :: u) c) : Over v u c :=
  h.imp id fun h => ⟨h.1, Nat.lt_of_succ_lt h.2⟩

theorem Over.outward {c : HookCall} {hosted : DialogSet} (h : Over (v.enter hosted) w c) :
    Over v u c := by
  refine .inl ?_
  rcases h with h | ⟨h, -⟩
  · exact Nat.lt_of_succ_lt h
  · rw [h]
    exact Nat.lt_succ_self v.level

/-- What a hook of the dialog runs in a turn comes to the end of that dialog with a result: by
itself, or once the stack of the child context has been completed with the result. -/
inductive EndsWith (v : View) (d : Dialog) (t : Turn) (result : Option Json) :
    Program TurnResult → Prop
  | itself {p : Program TurnResult} (hleft : (p.stretch v t).left = Program.finish result) :
      EndsWith v d t result p
  | hosted {body : Program TurnResult} {inner : View} {n : Nat} {s : Session}
      (hchild : v.child? t = some inner)
      (hbody : interpret (call n) n d inner body { turn := t } =
        some (.ok (.completed result), s)) :
      EndsWith v d t result (Component.hosted body >>= Component.settle)

/-- In the call of one of its hooks, the dialog with the id, in the frame over the stack, comes to
its end with a result. -/
def Ended (v : View) (u : Stack) (id : String) (result : Option Json) (c : HookCall) : Prop :=
  ∃ d p f, v.find? id = some d ∧ c = .of v d c.turn c.hook ∧ d.Turning c.hook p ∧
    c.turn.stackAt? v.level = some (f :: u) ∧ f.id = id ∧ EndsWith v d c.turn result p

/-- Whatever fuel it is run with, a hook ends its dialog with one result. -/
theorem EndsWith.unique {t : Turn} {p : Program TurnResult} {result' : Option Json}
    (h : EndsWith v d t result p) (h' : EndsWith v d t result' p) : result = result' := by
  generalize hp : p = q at h'
  cases h with
  | itself hleft =>
    cases h' with
    | itself hleft' =>
      rw [hp, hleft'] at hleft
      cases hleft
      rfl
    | hosted =>
      rw [hp] at hleft
      cases hleft
  | @hosted body inner n s₁ hchild hbody =>
    cases h' with
    | itself hleft' =>
      rw [← hp] at hleft'
      cases hleft'
    | @hosted body' inner' n' s₂ hchild' hbody' =>
      cases hp
      obtain rfl := Option.some.inj (hchild.symm.trans hchild')
      cases interpret_unique hbody hbody'
      rfl

theorem Ended.unique {c : HookCall} {result' : Option Json} (h : Ended v u id result c)
    (h' : Ended v u id result' c) : result = result' := by
  obtain ⟨d, p, -, hd, -, hp, -, -, hends⟩ := h
  obtain ⟨d', p', -, hd', -, hp', -, -, hends'⟩ := h'
  obtain rfl := Option.some.inj (hd.symm.trans hd')
  obtain rfl := hp.unique hp'
  exact hends.unique hends'

/-- The frame is that of a dialog with brief hooks, and hosts nothing. -/
structure Resting (R : Repertoire) (v : View) (f : Frame) : Prop where
  dialog : ∃ d, v.find? f.id = some d ∧ d.Simple (R v) v
  owns : f.memory.isSome
  hosts : f.children = []

/-- The frames wait. The first of them rests, or is that of a component and the frames that it
hosts wait; the others rest. -/
inductive Waits (R : Repertoire) : View → Stack → Prop
  | resting {v : View} {f : Frame} {lower : Stack} (hf : Resting R v f)
      (hlower : ∀ g ∈ lower, Resting R v g) : Waits R v (f :: lower)
  | hosting {v : View} {f : Frame} {lower : Stack} {c : Component}
      (hd : v.find? f.id = some c.dialog) (howns : f.memory.isSome)
      (hinner : Waits R (v.enter c.dialogs) f.children) (hlower : ∀ g ∈ lower, Resting R v g) :
      Waits R v (f :: lower)

theorem Waits.concat (h : Waits R v above) (hg : Resting R v g) : Waits R v (above ++ [g]) := by
  have hconcat {lower : Stack} (hlower : ∀ g ∈ lower, Resting R v g) :
      ∀ g' ∈ lower ++ [g], Resting R v g' :=
    List.forall_mem_append.mpr ⟨hlower, List.forall_mem_singleton.mpr hg⟩
  cases h with
  | resting hf hlower => exact .resting hf (hconcat hlower)
  | hosting hd howns hinner hlower => exact .hosting hd howns hinner (hconcat hlower)

theorem Waits.exists_lowest (h : Waits R v above) :
    ∃ id, above.getLast?.map Frame.id = some id := by
  cases h with
  | resting | hosting => exact ⟨_, rfl⟩

/-- What comes of an operation on the frames over a stack, the lowest of which was pushed for an
id. They stay and wait, or they come to the end of the lowest, with some fuel left for it, and
what comes then is what comes of that end. -/
inductive Comes (R : Repertoire) (v : View) (u : Stack) (id : String) (n : Nat) (s : Session) :
    TurnResult → Session → Prop
  | stays {above : Stack} {calls : List HookCall} {s' : Session} (hwaits : Waits R v above)
      (hlowest : above.getLast?.map Frame.id = some id)
      (hturn : s.turn.Restacked v.level (above ++ u) s'.turn)
      (hcalls : s'.calls = s.calls ++ calls) (hover : ∀ c ∈ calls, Over v u c) :
      Comes R v u id n s .waiting s'
  | ends {k : Nat} {f : Frame} {d : Dialog} {result : Option Json} {r : TurnResult}
      {before after : List HookCall} {b : HookCall} {s₁ s₂ s' : Session} (hk : k < n)
      (hid : f.id = id) (hd : v.find? id = some d) (hordinary : d.Ordinary)
      (hturn : s.turn.Restacked v.level (f :: u) s₁.turn)
      (hfinish : finish (call k) v result s₁ = some (.ok r, s₂))
      (hafter : s₂.calls = s₁.calls ++ after) (hturn' : s'.turn = s₂.turn)
      (hcalls : s'.calls = s.calls ++ (before ++ after)) (hover : ∀ c ∈ before, Over v u c)
      (hb : b ∈ before) (hended : Ended v u id result b) : Comes R v u id n s r s'

/-- The same within what goes on around it, after calls that were made before. -/
theorem Comes.within {t t' : Session} {before : List HookCall} {k : Nat}
    (h : Comes R v u id k s r s') (hk : k ≤ n) (hturn : t.turn.Restacked v.level w s.turn)
    (hturn' : t'.turn = s'.turn) (hbefore : ∀ c ∈ before, Over v u c)
    (hcalls : ∀ calls, s'.calls = s.calls ++ calls → t'.calls = t.calls ++ (before ++ calls)) :
    Comes R v u id n t r t' := by
  cases h with
  | stays hwaits hlowest hstays hown hover =>
    refine .stays hwaits hlowest ?_ (hcalls _ hown) (List.forall_mem_append.mpr ⟨hbefore, hover⟩)
    rw [hturn']
    exact hturn.trans hstays
  | ends hk' hid hd hordinary hends hfinish hafter hsame hown hover hb hended =>
    refine .ends (Nat.lt_of_lt_of_le hk' hk) hid hd hordinary (hturn.trans hends) hfinish hafter
      (hturn'.trans hsame) ?_ (List.forall_mem_append.mpr ⟨hbefore, hover⟩)
      (List.mem_append_right _ hb) hended
    rw [hcalls _ hown, List.append_assoc]

/-- The same with calls that were made before, in a session that they led to. -/
theorem Comes.after {t : Session} {before : List HookCall} {k : Nat}
    (h : Comes R v u id k s r s') (hk : k ≤ n) (hturn : t.turn.Restacked v.level w s.turn)
    (hbefore : ∀ c ∈ before, Over v u c) (hcalls : s.calls = t.calls ++ before) :
    Comes R v u id n t r s' :=
  h.within hk hturn rfl hbefore fun calls hs' => by rw [hs', hcalls, List.append_assoc]

/-- Over nothing, an end completes the stack. -/
theorem Comes.alone (h : Comes R v [] id n s r s') (hw : s.turn.stackAt? v.level = some w) :
    ((r = .waiting ∧ ∃ above, Waits R v above ∧ s.turn.Restacked v.level above s'.turn) ∨
      ∃ result, r = .completed result ∧ s.turn.Restacked v.level [] s'.turn) ∧
    ∃ calls, s'.calls = s.calls ++ calls ∧ ∀ c ∈ calls, Over v [] c := by
  cases h with
  | @stays above _ _ hwaits _ hturn hcalls hover =>
    rw [List.append_nil] at hturn
    exact ⟨.inl ⟨rfl, above, hwaits, hturn⟩, _, hcalls, hover⟩
  | @ends k f d result _ before after b s₁ s₂ _ _ hid hd hordinary hturn hfinish hafter hturn'
      hcalls hover hb hended =>
    have hs₁ := hturn.stackAt? hw
    rw [← hid] at hd
    obtain ⟨hr, hlast, hclosing⟩ := finish_last hs₁ hd hordinary hfinish
    obtain rfl := List.append_cancel_left (hafter.symm.trans hclosing)
    refine ⟨.inr ⟨result, hr, ?_⟩, _, hcalls, List.forall_mem_append.mpr ⟨hover, ?_⟩⟩
    · rw [hturn']
      exact hturn.trans hlast
    · exact List.forall_mem_singleton.mpr (over_of_stackAt? hs₁ (by simp) d _)

/-! ## By induction on the fuel -/

/-- With this much fuel, whatever is done to dialogs of the repertoire comes to one or the other. -/
structure Sound (R : Repertoire) (n : Nat) : Prop where
  begins {v : View} {id : String} {options : Option Json} {s s' : Session} {r : TurnResult}
    {u : Stack} (hid : R v id) (hu : s.turn.stackAt? v.level = some u)
    (h : begin (call n) v id options s = some (.ok r, s')) : Comes R v u id n s r s'
  resumes {v : View} {f : Frame} {d : Dialog} {u : Stack} {reason : Reason}
    {result : Option Json} {s s' : Session} {r : TurnResult} (hd : v.find? f.id = some d)
    (hf : Resting R v f) (hu : s.turn.stackAt? v.level = some (f :: u))
    (h : call n v d (.resume reason result) s = some (.ok r, s')) : Comes R v u f.id n s r s'
  advances {v : View} {above u : Stack} {s s' : Session} {r : TurnResult} {id : String}
    (hwaits : Waits R v above) (hlowest : above.getLast?.map Frame.id = some id)
    (hu : s.turn.stackAt? v.level = some (above ++ u))
    (h : advance (call n) v s = some (.ok r, s')) : Comes R v u id n s r s'

/-- What comes over a frame that rests comes to that frame in the end. -/
theorem Comes.resumed (ih : ∀ k < n, Sound R k) (h : Comes R v (g :: u) id n s r s')
    (hg : Resting R v g) (hw : s.turn.stackAt? v.level = some w) :
    Comes R v u g.id n s r s' := by
  cases h with
  | @stays above _ _ hwaits hlowest hturn hcalls hover =>
    refine .stays (hwaits.concat hg) (by simp) ?_ hcalls fun c hc => (hover c hc).below
    rwa [List.append_assoc]
  | @ends k f d result _ before after b s₁ s₂ _ hk hid hd hordinary hturn hfinish hafter hturn'
      hcalls hover hb hended =>
    obtain ⟨below, hbelow, hsimple⟩ := hg.dialog
    obtain ⟨m, hm⟩ := Option.isSome_iff_exists.mp hg.owns
    have hs₁ := hturn.stackAt? hw
    obtain ⟨m', told, -, habove, htold, hresume⟩ :=
      finish_above hs₁ (hid ▸ hd) hordinary hm hbelow hfinish
    have hresting : Resting R v { g with memory := some m' } :=
      ⟨⟨below, hbelow, hsimple⟩, rfl, hg.hosts⟩
    have hresumed := (ih k hk).resumes (f := { g with memory := some m' }) hbelow hresting
      (habove.stackAt? hs₁) hresume
    have hover' : ∀ c ∈ before ++ [closing v d s₁.turn], Over v u c :=
      List.forall_mem_append.mpr ⟨fun c hc => (hover c hc).below,
        List.forall_mem_singleton.mpr (over_of_stackAt? hs₁ (by grind) d _)⟩
    refine hresumed.within (Nat.le_of_lt hk) (hturn.trans habove) hturn' hover' fun calls hs₂ => ?_
    rw [htold, hafter, List.append_assoc] at hs₂
    rw [hcalls, List.append_cancel_left hs₂, List.append_assoc]

/-- What comes over frames that rest comes to the lowest of them in the end. -/
theorem Comes.lowered (ih : ∀ k < n, Sound R k) {lower : Stack}
    (h : Comes R v (lower ++ u) f.id n s r s') (hlower : ∀ g ∈ lower, Resting R v g)
    (hlowest : (f :: lower).getLast?.map Frame.id = some id)
    (hw : s.turn.stackAt? v.level = some w) : Comes R v u id n s r s' := by
  induction lower generalizing f with
  | nil =>
    obtain rfl := Option.some.inj hlowest
    exact h
  | cons g more ihmore =>
    obtain ⟨hg, hmore⟩ := List.forall_mem_cons.mp hlower
    rw [List.getLast?_cons_cons] at hlowest
    exact ihmore (h.resumed ih hg hw) hmore hlowest

/-- A program does what it can do by itself without a call. -/
theorem exists_stretched (caller : Caller) (k : Nat) (self : Dialog) (v : View) (p : Program α)
    (t : Turn) : ∃ s : Session, s.turn = (p.stretch v t).turn ∧ s.calls = [] ∧
      interpret caller k self v p { turn := t } =
        interpret caller k self v (p.stretch v t).left s :=
  ⟨{ turn := (p.stretch v t).turn, journal := (p.stretch v t).notes.map .noted }, rfl,
    Entry.callsOf_noted _, interpret_stretch caller k self v p { turn := t }⟩

/-- A hook that has come to the end of its dialog, after calls over the stack. -/
theorem finish_comes {hook : Hook} {p : Program TurnResult} {answer : Except Fault hook.Reply}
    {s₁ after : Session} (hd : v.find? f.id = some d) (hordinary : d.Ordinary)
    (hp : d.Turning hook p) (hid : g.id = f.id) (hu : s.turn.stackAt? v.level = some (f :: u))
    (hturn : s.turn.Restacked v.level (g :: u) s₁.turn) (hends : EndsWith v d s.turn result p)
    (h : finish (call n) v result s₁ = some (.ok r, after)) (hover : ∀ c ∈ s₁.calls, Over v u c) :
    Comes R v u f.id (n + 1) s r { turn := after.turn, journal := s.journal ++
      [.called (.of v d s.turn hook) answer after.journal] } := by
  have hs₁ := hturn.stackAt? hu
  obtain ⟨more, hmore⟩ := finish_calls hs₁ (hid ▸ hd) hordinary h
  have hcalled : Session.calls { turn := after.turn, journal := s.journal ++
      [.called (.of v d s.turn hook) answer after.journal] } =
        s.calls ++ (.of v d s.turn hook :: s₁.calls ++ closing v d s₁.turn :: more) := by
    rw [List.cons_append, ← hmore]
    exact Session.calls_called _ _ _ _ _
  exact .ends (Nat.lt_succ_self n) hid hd hordinary hturn h hmore rfl hcalled
    (List.forall_mem_cons.mpr ⟨over_of_stackAt? hu (by simp) d hook, hover⟩)
    List.mem_cons_self ⟨d, p, f, hd, rfl, hp, hu, rfl, hends⟩

/-- A simple dialog, when one of its hooks is called. -/
theorem simple_comes (ih : ∀ k ≤ n, Sound R k) {hook : Hook} {p : Program TurnResult}
    {answer : Except Fault hook.Reply} {after : Session} (hd : v.find? f.id = some d)
    (hf : Resting R v f) (hp : d.Turning hook p) (hu : s.turn.stackAt? v.level = some (f :: u))
    (h : interpret (call n) n d v p { turn := s.turn } = some (.ok r, after)) :
    Comes R v u f.id (n + 1) s r { turn := after.turn, journal := s.journal ++
      [.called (.of v d s.turn hook) answer after.journal] } := by
  obtain ⟨d', hd', hsimple⟩ := hf.dialog
  obtain rfl := Option.some.inj (hd'.symm.trans hd)
  obtain ⟨m, hstretch⟩ := p.stretch_restacked hu hf.owns
  obtain ⟨s₁, hs₁turn, hs₁calls, hwhole⟩ := exists_stretched (call n) n d' v p s.turn
  rw [← hs₁turn] at hstretch
  have hs₁ := hstretch.stackAt? hu
  have hresting : Resting R v { f with memory := some m } := ⟨hf.dialog, rfl, hf.hosts⟩
  have hover : ∀ c ∈ [HookCall.of v d' s.turn hook], Over v u c :=
    List.forall_mem_singleton.mpr (over_of_stackAt? hu (by simp) d' hook)
  have hcalled : Session.calls { turn := after.turn, journal := s.journal ++
      [.called (.of v d' s.turn hook) answer after.journal] } =
        s.calls ++ ([.of v d' s.turn hook] ++ after.calls) := Session.calls_called _ _ _ _ _
  -- what comes of the operation that is left is what comes of the call
  have hentered {k : Nat} (hk : k ≤ n + 1) (hleft : Comes R v u f.id k s₁ r after) :
      Comes R v u f.id (n + 1) s r { turn := after.turn, journal := s.journal ++
        [.called (.of v d' s.turn hook) answer after.journal] } := by
    refine hleft.within hk hstretch rfl hover fun calls hcalls => ?_
    rw [hcalled, hcalls, hs₁calls, List.nil_append]
  rw [hwhole] at h
  have hending := hsimple.brief hp s.turn
  generalize hleft : (p.stretch v s.turn).left = left at h hending
  cases hending with
  | wait =>
    obtain ⟨hr, rfl⟩ := Prod.mk.inj (Option.some.inj h)
    obtain rfl := Except.ok.inj hr
    refine .stays (.resting hresting (List.forall_mem_nil _)) rfl hstretch ?_ hover
    rw [hcalled, hs₁calls, List.append_nil]
  | fail e => cases (Prod.mk.inj (Option.some.inj h)).1
  | begin hid options =>
    rw [Program.begin, interpret_run] at h
    have hbegun := (ih n (Nat.le_refl n)).begins hid hs₁ h
    have hresumed := hbegun.resumed (fun k hk => ih k (Nat.le_of_lt hk)) hresting hs₁
    exact hentered (Nat.le_succ n) hresumed
  | next result =>
    rw [Waterfall.next, interpret_run] at h
    have hresumed := (ih n (Nat.le_refl n)).resumes (f := { f with memory := some m }) hd hresting
      hs₁ h
    exact hentered (Nat.le_succ n) hresumed
  | finish result =>
    rw [Program.finish, interpret_run] at h
    exact finish_comes (g := { f with memory := some m }) hd hsimple.ordinary hp rfl hu hstretch
      (.itself hleft) h (by rw [hs₁calls]; exact List.forall_mem_nil _)

/-- A component has its hosted stack do what it is told to, and settles with what came of it. -/
theorem hosted_ok {caller : Caller} {self : Dialog} {c : Component} {body : Program TurnResult}
    (hd : v.find? f.id = some c.dialog) (hu : s.turn.stackAt? v.level = some (f :: u))
    (h : interpret caller n self v (Component.hosted body >>= Component.settle) s =
      some (.ok r, s')) :
    ∃ r₁ s₁, v.child? s.turn = some (v.enter c.dialogs) ∧
      interpret caller n self (v.enter c.dialogs) body s = some (.ok r₁, s₁) ∧
      interpret caller n self v (Component.settle r₁) s₁ = some (.ok r, s') := by
  have hchild : v.child? s.turn = some (v.enter c.dialogs) := by
    rw [View.child?, Turn.active?_of_stackAt? hu]
    simp [hd, Component.dialog]
  rw [interpret_bind, Eval.bind_apply, interpret_hosted hchild] at h
  split at h
  · cases h
  · next r₁ s₁ hinner => exact ⟨r₁, s₁, hchild, hinner, h⟩
  · cases h

/-- A component that begins, or goes on, when its hook is called: it comes to what its hosted
stack comes to. -/
theorem hosted_comes {hook : Hook} {c : Component} {body : Program TurnResult}
    {answer : Except Fault hook.Reply} {after : Session} (hd : v.find? f.id = some c.dialog)
    (howns : f.memory.isSome)
    (hp : c.dialog.Turning hook (Component.hosted body >>= Component.settle))
    (hu : s.turn.stackAt? v.level = some (f :: u))
    (hbody : ∀ {r₁ s₁}, interpret (call n) n c.dialog (v.enter c.dialogs) body
      { turn := s.turn } = some (.ok r₁, s₁) →
        ∃ id, Comes R (v.enter c.dialogs) [] id n { turn := s.turn } r₁ s₁)
    (h : interpret (call n) n c.dialog v (Component.hosted body >>= Component.settle)
      { turn := s.turn } = some (.ok r, after)) :
    Comes R v u f.id (n + 1) s r { turn := after.turn, journal := s.journal ++
      [.called (.of v c.dialog s.turn hook) answer after.journal] } := by
  obtain ⟨r₁, s₁, hchild, hinner, hsettles⟩ := hosted_ok (s := { turn := s.turn }) hd hu h
  obtain ⟨id, hinnermost⟩ := hbody hinner
  obtain ⟨hcomes, calls, hcalls, hdeep⟩ := hinnermost.alone (Stack.level?_succ hu)
  obtain rfl : s₁.calls = calls := hcalls
  have hover : ∀ b ∈ s₁.calls, Over v u b := fun b hb => (hdeep b hb).outward
  rcases hcomes with ⟨rfl, above, hwaits, hturn⟩ | ⟨result, rfl, hturn⟩
  · obtain ⟨hr, rfl⟩ := Prod.mk.inj (Option.some.inj hsettles)
    obtain rfl := Except.ok.inj hr
    exact .stays (.hosting (f := { f with children := above }) hd howns hwaits
      (List.forall_mem_nil _)) rfl (hturn.outward hu) (Session.calls_called _ _ _ _ _)
      (List.forall_mem_cons.mpr ⟨over_of_stackAt? hu (by simp) c.dialog hook, hover⟩)
  · have hfinish : finish (call n) v result s₁ = some (.ok r, after) :=
      (congrFun (interpret_run (call n) n c.dialog v (.finish result)) s₁).symm.trans hsettles
    exact finish_comes (g := { f with children := [] }) hd c.ordinary hp rfl hu
      (hturn.outward hu) (.hosted hchild hinner) hfinish hover

theorem call_ok {hook : Hook} {answer : hook.Reply}
    (h : call n v d hook s = some (.ok answer, s')) :
    ∃ k after, n = k + 1 ∧
      interpret (call k) k d v (d.program hook) { turn := s.turn } = some (.ok answer, after) ∧
      s' = { turn := after.turn, journal := s.journal ++
        [.called (.of v d s.turn hook) (.ok answer) after.journal] } := by
  cases n with
  | zero => cases h
  | succ k =>
    obtain ⟨⟨outcome, after⟩, hrun, heq⟩ := Option.map_eq_some_iff.mp h
    obtain ⟨rfl, rfl⟩ := Prod.mk.inj heq
    exact ⟨k, after, rfl, hrun, rfl⟩

/-- A dialog of the repertoire that is begun. -/
theorem begins_comes (ih : ∀ k < n, Sound R k) {d : Dialog} {options : Option Json}
    (hlookup : lookUp v id = .ok d) (hd : d.Stocked R v) (hu : s.turn.stackAt? v.level = some u)
    (h : begin (call n) v id options s = some (.ok r, s')) : Comes R v u id n s r s' := by
  rcases prepared_or v s.turn id with ⟨d', inputs, hprepared⟩ | ⟨e, hunprepared⟩
  · obtain rfl := Except.ok.inj (hprepared.found.symm.trans hlookup)
    rw [begin_of_prepared hprepared] at h
    rcases pushAndBegin_cases hprepared hd.ordinary.owning hu h with
      ⟨e, he, -⟩ | ⟨f, after, rfl, hfresh, hcall, hs'⟩
    · cases he
    · obtain rfl : s' = after := hs'
      have hput := Turn.restacked_put s.turn v.level (f :: u)
      obtain ⟨k, inner, rfl, hrun, hafter⟩ := call_ok hcall
      suffices hcomes : Comes R v u f.id (k + 1)
          { s with turn := s.turn.put v.level (f :: u) } r s' from
        hcomes.after (Nat.le_refl _) hput (List.forall_mem_nil _) (List.append_nil _).symm
      rw [hafter]
      rcases hd.simple_or_component with hsimple | ⟨c, rfl, hinitial⟩
      · have hresting : Resting R v f := ⟨⟨d', hfresh.dialog, hsimple⟩, hfresh.owns, hfresh.hosts⟩
        exact simple_comes (fun j hj => ih j (Nat.lt_succ_of_le hj)) hfresh.dialog hresting
          (.begin options) hfresh.stack hrun
      · refine hosted_comes hfresh.dialog hfresh.owns (.begin options) hfresh.stack
          (fun hbody => ?_) hrun
        rw [Program.begin, interpret_run] at hbody
        have hhosted := Stack.level?_succ hfresh.stack
        rw [hfresh.hosts] at hhosted
        exact ⟨c.initial, (ih k (Nat.lt_succ_self k)).begins hinitial hhosted hbody⟩
  · rw [begin_of_unprepared hunprepared] at h
    cases (Prod.mk.inj (Option.some.inj h)).1

/-- Frames that wait, when their stack is continued. -/
theorem advances_comes (ih : ∀ k < n, Sound R k) (hwaits : Waits R v above)
    (hlowest : above.getLast?.map Frame.id = some id)
    (hu : s.turn.stackAt? v.level = some (above ++ u))
    (h : advance (call n) v s = some (.ok r, s')) : Comes R v u id n s r s' := by
  cases hwaits with
  | @resting _ f lower hf hlower =>
    obtain ⟨d, hd, -⟩ := hf.dialog
    rw [advance_active (Turn.active?_of_stackAt? hu) hd] at h
    obtain ⟨k, inner, rfl, hrun, rfl⟩ := call_ok h
    exact Comes.lowered ih (simple_comes (fun j hj => ih j (Nat.lt_succ_of_le hj)) hd hf .advance
      hu hrun) hlower hlowest hu
  | @hosting _ f lower c hd howns hinner hlower =>
    rw [advance_active (Turn.active?_of_stackAt? hu) hd] at h
    obtain ⟨k, inner, rfl, hrun, rfl⟩ := call_ok h
    obtain ⟨id', hid'⟩ := hinner.exists_lowest
    have hhosted : s.turn.stackAt? (v.level + 1) = some (f.children ++ []) := by
      rw [List.append_nil]
      exact Stack.level?_succ hu
    refine Comes.lowered ih (f := f) (hosted_comes hd howns .advance hu (fun hbody => ?_) hrun)
      hlower hlowest hu
    rw [Program.advance, interpret_run] at hbody
    exact ⟨id', (ih k (Nat.lt_succ_self k)).advances hinner hid' hhosted hbody⟩

/-- By induction on the fuel: a hook has less for the operations that it makes. -/
theorem sound (hR : R.Closed) (n : Nat) : Sound R n := by
  induction n using Nat.strongRecOn with
  | ind n ih =>
    refine ⟨fun hid hu h => ?_, fun hd hf hu h => ?_, fun hwaits hlowest hu h => ?_⟩
    · obtain ⟨d, hlookup, hstocked⟩ := hR _ _ hid
      exact begins_comes ih hlookup hstocked hu h
    · obtain ⟨k, inner, rfl, hrun, rfl⟩ := call_ok h
      exact simple_comes (fun j hj => ih j (Nat.lt_succ_of_le hj)) hd hf (.resume _ _) hu hrun
    · exact advances_comes ih hwaits hlowest hu h

/-- An activity that is no message is waited out, by the dialogs that wait. -/
theorem advance_other (hwaits : Waits R v above) (hu : s.turn.stackAt? v.level = some (above ++ u))
    (hmessage : s.turn.activity.isMessage = false)
    (h : advance (call n) v s = some (.ok r, s')) :
    r = .waiting ∧ s'.turn = s.turn ∧
      ∃ calls, s'.calls = s.calls ++ calls ∧ ∀ c ∈ calls, c.hook = .advance ∧ Over v u c := by
  induction hwaits generalizing s s' r n u with
  | @resting v f lower hf hlower =>
    obtain ⟨d, hd, hsimple⟩ := hf.dialog
    rw [advance_active (Turn.active?_of_stackAt? hu) hd] at h
    obtain ⟨k, after, rfl, -, -⟩ := call_ok h
    have hother : (d.program .advance).stretch v s.turn = ⟨.done (.ok .waiting), s.turn, []⟩ :=
      hsimple.other hmessage
    rw [call_of_done hother] at h
    obtain ⟨hr, rfl⟩ := Prod.mk.inj (Option.some.inj h)
    refine ⟨(Except.ok.inj hr).symm, rfl, _, Session.calls_called _ _ _ _ _, ?_⟩
    exact List.forall_mem_singleton.mpr ⟨rfl, over_of_stackAt? hu (by grind) d _⟩
  | @hosting v f lower c hd howns hinner hlower ih =>
    rw [advance_active (Turn.active?_of_stackAt? hu) hd] at h
    obtain ⟨k, after, rfl, hrun, rfl⟩ := call_ok h
    obtain ⟨r₁, s₁, -, hbody, hsettles⟩ := hosted_ok (s := { turn := s.turn }) hd hu hrun
    rw [Program.advance, interpret_run] at hbody
    have hhosted : s.turn.stackAt? (v.level + 1) = some (f.children ++ []) := by
      rw [List.append_nil]
      exact Stack.level?_succ hu
    obtain ⟨rfl, hturn, calls, hcalls, hadvance⟩ :=
      ih (s := { turn := s.turn }) hhosted hmessage hbody
    obtain ⟨hr, rfl⟩ := Prod.mk.inj (Option.some.inj hsettles)
    refine ⟨(Except.ok.inj hr).symm, hturn, _, Session.calls_called _ _ _ _ _, ?_⟩
    refine List.forall_mem_cons.mpr ⟨⟨rfl, over_of_stackAt? hu (by grind) _ _⟩, ?_⟩
    intro b hb
    change b ∈ s₁.calls at hb
    rw [hcalls] at hb
    obtain ⟨hhook, hover⟩ := hadvance b hb
    exact ⟨hhook, hover.outward⟩

end Engine
end Colloquy
