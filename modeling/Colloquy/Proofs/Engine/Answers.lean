import Colloquy.Proofs.Engine.Pushdown

/-!
# What evaluations answer

In a given turn a run can be followed from one request to the next: each answers with an
outcome and leaves another turn, whatever has been entered in the journal. The rules put
the answers of the parts together, for programs and for the operations of the engine.
-/
namespace Colloquy

namespace Eval

/-- In the turn the evaluation comes to the outcome and leaves the other turn. -/
def Answers (x : Eval α) (t : Turn) (outcome : Except Fault α) (t' : Turn) : Prop :=
  ∀ journal, ∃ journal',
    x { turn := t, journal } = some (outcome, { turn := t', journal := journal' })

variable {t t₁ t' : Turn}

theorem answers_pure {a : α} : (pure a : Eval α).Answers t (.ok a) t :=
  fun journal => ⟨journal, rfl⟩

theorem answers_ofExcept {outcome : Except Fault α} : (ofExcept outcome).Answers t outcome t :=
  fun journal => ⟨journal, rfl⟩

theorem answers_bind {x : Eval α} {f : α → Eval β} {a : α} {outcome : Except Fault β}
    (hx : x.Answers t (.ok a) t₁) (hf : (f a).Answers t₁ outcome t') :
    (x >>= f).Answers t outcome t' := by
  intro journal
  obtain ⟨middle, hfirst⟩ := hx journal
  obtain ⟨journal', hrest⟩ := hf middle
  exact ⟨journal', by simp only [bind_apply, hfirst, hrest]⟩

theorem answers_bind_error {x : Eval α} {f : α → Eval β} {e : Fault}
    (hx : x.Answers t (.error e) t') : (x >>= f).Answers t (.error e) t' := by
  intro journal
  obtain ⟨journal', hfirst⟩ := hx journal
  exact ⟨journal', by simp only [bind_apply, hfirst]⟩

theorem answers_turn {f : Turn → Eval α} {outcome : Except Fault α}
    (hf : (f t).Answers t outcome t') : (turn >>= f).Answers t outcome t' := hf

theorem answers_onTurn {f : Turn → Except Fault α × Turn} {outcome : Except Fault α}
    (h : f t = (outcome, t')) : (onTurn f).Answers t outcome t' := by
  intro journal
  exact ⟨journal, by simp only [onTurn, h]⟩

theorem answers_attempt {x : Eval α} {outcome : Except Fault α} (h : x.Answers t outcome t') :
    x.attempt.Answers t (.ok outcome) t' := by
  intro journal
  obtain ⟨journal', hx⟩ := h journal
  exact ⟨journal', by simp only [attempt, hx, Option.map_some]⟩

theorem answers_entered {x : Eval α} {outcome : Except Fault α}
    (entry : Except Fault α → List Entry → Entry) (h : x.Answers t outcome t') :
    (entered entry x).Answers t outcome t' := by
  intro journal
  obtain ⟨during, hx⟩ := h []
  exact ⟨journal ++ [entry outcome during], by simp only [entered, hx, Option.map_some]⟩

end Eval

namespace Engine
open Eval

variable {caller : Caller} {fuel : Nat} {self d : Dialog} {v : View} {t t₁ t' : Turn}

theorem answers_call {hook : Hook} {outcome : Except Fault hook.Reply}
    (h : (interpret (call fuel) fuel d v (d.program hook)).Answers t outcome t') :
    (call (fuel + 1) v d hook).Answers t outcome t' :=
  answers_turn (answers_entered _ h)

/-- A hook that answers at once leaves the turn as it is. -/
theorem answers_at_once {hook : Hook} {a : hook.Reply} (h : d.program hook = pure a) :
    (call (fuel + 1) v d hook).Answers t (.ok a) t := by
  apply answers_call
  rw [h]
  exact answers_pure

/-! ## Programs -/

/-- Programs run one after the other. -/
theorem answers_then {p : Program α} {f : α → Program β} {a : α} {outcome : Except Fault β}
    (hp : (interpret caller fuel self v p).Answers t (.ok a) t₁)
    (hf : (interpret caller fuel self v (f a)).Answers t₁ outcome t') :
    (interpret caller fuel self v (p >>= f)).Answers t outcome t' := by
  rw [interpret_bind]
  exact answers_bind hp hf

theorem answers_then_error {p : Program α} {f : α → Program β} {e : Fault}
    (hp : (interpret caller fuel self v p).Answers t (.error e) t') :
    (interpret caller fuel self v (p >>= f)).Answers t (.error e) t' := by
  rw [interpret_bind]
  exact answers_bind_error hp

theorem answers_return {a : α} :
    (interpret caller fuel self v (pure a)).Answers t (.ok a) t := answers_pure

theorem answers_outcome {outcome : Except Fault α} :
    (interpret caller fuel self v (Program.ofExcept outcome)).Answers t outcome t :=
  answers_ofExcept

theorem answers_activity :
    (interpret caller fuel self v Program.activity).Answers t (.ok t.activity) t :=
  fun journal => ⟨journal, rfl⟩

theorem answers_sight :
    (interpret caller fuel self v Program.sight).Answers t (.ok (v.sight t)) t :=
  fun journal => ⟨journal, rfl⟩

theorem answers_get {path : String} {value : Option Json} (h : t.get v.level path = .ok value) :
    (interpret caller fuel self v (Program.get path)).Answers t (.ok value) t := by
  have hread : (v.sight t).get path = .ok value := h
  apply answers_turn
  show (interpret caller fuel self v (Program.ofExcept ((v.sight t).get path))).Answers _ _ _
  rw [hread]
  exact answers_ofExcept

theorem answers_getAs {decode : Json → Option α} {path : String} {value : Json} {x : α}
    (h : t.get v.level path = .ok (some value)) (hdecode : decode value = some x) :
    (interpret caller fuel self v (Program.getAs decode path)).Answers t (.ok (some x)) t := by
  refine answers_then (answers_get h) (answers_then (a := x) ?_ answers_return)
  rw [hdecode]
  exact answers_ofExcept

theorem answers_getAs_none {decode : Json → Option α} {path : String}
    (h : t.get v.level path = .ok none) :
    (interpret caller fuel self v (Program.getAs decode path)).Answers t (.ok none) t :=
  answers_then (answers_get h) answers_return

/-- A value of the wrong shape is a fault. -/
theorem answers_getAs_malformed {decode : Json → Option α} {path : String} {value : Json}
    (h : t.get v.level path = .ok (some value)) (hdecode : decode value = none) :
    (interpret caller fuel self v (Program.getAs decode path)).Answers t
      (.error .malformed) t := by
  refine answers_then (answers_get h) (answers_then_error ?_)
  rw [hdecode]
  exact answers_ofExcept

theorem answers_change {e : Edit α} {outcome : Except Fault α}
    (h : e.apply v.level t = (outcome, t')) :
    (interpret caller fuel self v (Program.change e)).Answers t outcome t' :=
  answers_bind (answers_attempt (answers_onTurn h)) answers_ofExcept

theorem answers_set {path : String} {value : Json} (h : t.set v.level path value = (.ok (), t')) :
    (interpret caller fuel self v (Program.set path value)).Answers t (.ok ()) t' :=
  answers_change h

theorem answers_sendText {text : String} :
    (interpret caller fuel self v (Program.sendText text)).Answers t (.ok ())
      (t.send (t.activity.reply text)) :=
  answers_then answers_activity (answers_change rfl)

theorem answers_run {c : Call α} {outcome : Except Fault α}
    (h : (perform caller fuel self v c).Answers t outcome t') :
    (interpret caller fuel self v (Program.run c)).Answers t outcome t' := by
  rw [interpret_run]
  exact h

theorem answers_inChild {body : Program α} {inner : View} {a : α}
    (hchild : v.child? t = some inner)
    (h : (interpret caller fuel self inner body).Answers t (.ok a) t') :
    (interpret caller fuel self v (Program.inChild body)).Answers t (.ok (some a)) t' := by
  rw [Program.inChild, interpret]
  apply answers_turn
  simp only [View.at?, hchild]
  exact answers_bind (answers_attempt h) answers_ofExcept

theorem answers_inChild_error {body : Program α} {inner : View} {e : Fault}
    (hchild : v.child? t = some inner)
    (h : (interpret caller fuel self inner body).Answers t (.error e) t') :
    (interpret caller fuel self v (Program.inChild body)).Answers t (.error e) t' := by
  rw [Program.inChild, interpret]
  apply answers_turn
  simp only [View.at?, hchild]
  exact answers_bind (answers_attempt h) answers_ofExcept

/-! ## Operations -/

section
variable {u rest : Stack} {f : Frame} {result : Option Json}

/-- A dialog that begins on a stack stays there if it does not fail. -/
theorem answers_begin {id : String} {options : Option Json} {outcome : Except Fault TurnResult}
    (hd : lookUp v id = .ok d) (hinputs : d.inputs = []) (hu : t.stackAt? v.level = some u)
    (hseed : (t.push v.level (newFrame d id t v.level)).seed v.level (seeds d [] options) =
      (.ok (), t₁))
    (hbegin : (caller v d (.begin options)).Answers t₁ outcome t') :
    (begin caller v id options).Answers t outcome
      (if outcome.isOk then t' else t'.truncate v.level u.length) := by
  intro journal
  obtain ⟨journal', hanswer⟩ := hbegin journal
  have hinputs : readInputs t v.level d.inputs = .ok [] := by rw [hinputs, readInputs_nil]
  have hs := Turn.level?_shape_of_stackAt? hu
  have hpush := pushAndBegin_seeded (s := { turn := t, journal }) hs hseed hanswer
  rw [begin_of_prepared (s := { turn := t, journal }) ⟨hd, hinputs⟩, hpush, Stack.length_bare]
  cases outcome <;> exact ⟨journal', rfl⟩

theorem answers_advance {outcome : Except Fault TurnResult}
    (hu : t.stackAt? v.level = some (f :: rest)) (hd : v.find? f.id = some d)
    (h : (caller v d .advance).Answers t outcome t') :
    (advance caller v).Answers t outcome t' := by
  apply answers_turn
  simp only [Turn.active?_of_stackAt? hu, registered, hd]
  exact h

theorem answers_advance_idle (hu : t.active? v.level = none) :
    (advance caller v).Answers t (.ok .empty) t := by
  apply answers_turn
  rw [hu]
  exact answers_pure

theorem answers_endActive {reason : Reason} {g : Frame} {below : Stack}
    (hu : t.stackAt? v.level = some (f :: rest)) (hd : v.find? f.id = some d)
    (hclose : (caller v d (.close reason)).Answers t (.ok ()) t₁)
    (hu₁ : t₁.stackAt? v.level = some (g :: below)) (hwrite : writeOutput v d result = pure ()) :
    (endActive caller v reason result).Answers t (.ok ()) (t₁.pop v.level) := by
  have hpop : (popFrame v.level).Answers t₁ (.ok (some g)) (t₁.pop v.level) :=
    answers_onTurn (by simp only [hu₁]; rfl)
  apply answers_turn
  simp only [Turn.active?_of_stackAt? hu, hd, hwrite]
  exact answers_bind hclose (answers_bind hpop answers_pure)

/-- The last frame of a stack ends with its result as what the stack has completed with. -/
theorem answers_finish_last (hu : t.stackAt? v.level = some [f]) (hd : v.find? f.id = some d)
    (houtput : d.output = none) (hclose : (caller v d (.close .ended)).Answers t (.ok ()) t) :
    (finish caller v result).Answers t (.ok (.completed result)) (t.pop v.level) := by
  have hdepth : t.depth v.level ≠ 0 := by simp [Turn.depth_of_stackAt? hu]
  have hidle : (t.pop v.level).active? v.level = none :=
    Turn.active?_of_empty (Turn.stackAt?_pop hu)
  apply answers_turn
  rw [if_neg hdepth]
  refine answers_bind (answers_endActive hu hd hclose hu (writeOutput_unbound v houtput _)) ?_
  apply answers_turn
  rw [hidle]
  exact answers_pure

/-- A frame that ends over another one resumes it with the result. -/
theorem answers_finish_over {g : Frame} {d' : Dialog} {outcome : Except Fault TurnResult}
    (hu : t.stackAt? v.level = some (f :: g :: rest)) (hd : v.find? f.id = some d)
    (houtput : d.output = none) (hclose : (caller v d (.close .ended)).Answers t (.ok ()) t)
    (hd' : v.find? g.id = some d')
    (hresume : (caller v d' (.resume .ended result)).Answers (t.pop v.level) outcome t') :
    (finish caller v result).Answers t outcome t' := by
  have hdepth : t.depth v.level ≠ 0 := by simp [Turn.depth_of_stackAt? hu]
  have hactive : (t.pop v.level).active? v.level = some g :=
    Turn.active?_of_stackAt? (Turn.stackAt?_pop hu)
  apply answers_turn
  rw [if_neg hdepth]
  refine answers_bind (answers_endActive hu hd hclose hu (writeOutput_unbound v houtput _)) ?_
  apply answers_turn
  simp only [hactive, registered, hd']
  exact hresume

/-- Frames whose dialogs only take notice of their end are ended one by one. -/
theorem answers_clear {reason : Reason} {frames : Stack} {bound : Nat}
    (hu : t.stackAt? v.level = some frames)
    (hclose : ∀ f ∈ frames, ∃ d, v.find? f.id = some d ∧
      ∀ t, (caller v d (.close reason)).Answers t (.ok ()) t)
    (hbound : frames.length < bound) : (clear caller v reason bound).Answers t (.ok ())
      (t.modifyStack v.level fun _ => []) := by
  induction frames generalizing t bound with
  | nil =>
    obtain ⟨bound, rfl⟩ := Nat.exists_eq_add_one.mpr (Nat.zero_lt_of_lt hbound)
    have hsame : t.modifyStack v.level (fun _ => []) = t := by
      have hput : Stack.put v.level [] t.stack = t.stack := Stack.put_self hu
      exact congrArg (fun w => { t with stack := w }) hput
    have hdepth : t.depth v.level = 0 := Turn.depth_of_stackAt? hu
    rw [hsame]
    exact fun journal => ⟨journal, clear_stop hdepth⟩
  | cons f rest ih =>
    obtain ⟨bound, rfl⟩ := Nat.exists_eq_add_one.mpr (Nat.zero_lt_of_lt hbound)
    obtain ⟨d, hd, htold⟩ := hclose f List.mem_cons_self
    have hdepth : t.depth v.level ≠ 0 := by simp [Turn.depth_of_stackAt? hu]
    have hend := answers_endActive hu hd (htold t) hu (writeOutput_none v d)
    have hothers := ih (Turn.stackAt?_pop hu) (fun g hg => hclose g (List.mem_cons_of_mem f hg))
      (by simpa using hbound)
    have hall : (t.pop v.level).modifyStack v.level (fun _ => []) =
        t.modifyStack v.level fun _ => [] := by
      have hlevel : Stack.level? v.level t.stack = some (f :: rest) := hu
      have hput : Stack.put v.level [] (Stack.modifyLevel List.tail v.level t.stack) =
          Stack.put v.level [] t.stack := by
        rw [Stack.modifyLevel_eq_put hlevel, Stack.put_put]
      exact congrArg (fun w => { t with stack := w }) hput
    rw [← hall]
    intro journal
    obtain ⟨middle, hfirst⟩ := hend journal
    rw [clear_next hdepth hfirst]
    exact hothers middle

/-! ## Events -/

variable {event : Event} {outward : Eval Bool}

/-- An event that a dialog handles at once goes no further. -/
theorem answers_offer_before (hu : t.stackAt? v.level = some (f :: rest))
    (hd : v.find? f.id = some d)
    (hbefore : (caller v d (.before event)).Answers t (.ok true) t') :
    (offer caller event v outward).Answers t (.ok true) t' := by
  apply answers_turn
  simp only [Turn.active?_of_stackAt? hu, hd]
  exact answers_bind hbefore answers_pure

theorem answers_offer_outward (hu : t.stackAt? v.level = some (f :: rest))
    (hd : v.find? f.id = some d)
    (hbefore : (caller v d (.before event)).Answers t (.ok false) t)
    (houtward : outward.Answers t (.ok true) t') :
    (offer caller event v outward).Answers t (.ok true) t' := by
  apply answers_turn
  simp only [Turn.active?_of_stackAt? hu, hd]
  exact answers_bind hbefore (answers_bind houtward answers_pure)

theorem answers_offer_declined (hu : t.stackAt? v.level = some (f :: rest))
    (hd : v.find? f.id = some d)
    (hbefore : (caller v d (.before event)).Answers t (.ok false) t)
    (houtward : outward.Answers t (.ok false) t)
    (hafter : (caller v d (.after event)).Answers t (.ok false) t) :
    (offer caller event v outward).Answers t (.ok false) t := by
  apply answers_turn
  simp only [Turn.active?_of_stackAt? hu, hd]
  exact answers_bind hbefore (answers_bind houtward hafter)

/-- An active dialog that does not hear of it asks again. -/
theorem answers_reprompt (hu : t.stackAt? v.level = some (f :: rest)) (hd : v.find? f.id = some d)
    (hbefore : (caller v d (.before { name := Event.repromptDialog })).Answers t (.ok false) t)
    (hafter : (caller v d (.after { name := Event.repromptDialog })).Answers t (.ok false) t)
    (hreprompt : (caller v d .reprompt).Answers t (.ok ()) t') :
    (reprompt caller v).Answers t (.ok .waiting) t' := by
  have hemit : (emit caller v { name := Event.repromptDialog } false).Answers t (.ok false) t := by
    rw [emit_eq_offer caller v rfl]
    exact answers_offer_declined hu hd hbefore answers_pure hafter
  refine answers_bind hemit ?_
  apply answers_turn
  simp only [Turn.active?_of_stackAt? hu, registered, hd]
  exact answers_bind hreprompt answers_pure

end

end Engine
end Colloquy
