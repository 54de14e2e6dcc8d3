import Colloquy.Proofs.Cancellation.Run
import Colloquy.Proofs.Library.Operations
import Colloquy.Proofs.Nesting.Lockstep
import Colloquy.Proofs.Nesting.SelfContained

/-!
# The innermost context

A self-contained dialog and the prompts registered beside it run on a stack at the root and
on the same stack inside frames in lockstep: each operation of their context that the engine
performs for them reads and changes that stack only.
-/
namespace Colloquy

namespace Dialog

/-- The dialog itself, or a prompt. -/
def Company (main d : Dialog) : Prop := d = main ∨ ∃ p : Prompt, d = p.dialog

/-- Where the dialog's output binding says can always be written, or is a dialog scope. -/
def Delivers (d : Dialog) : Prop := ∀ binding, d.output = some binding →
  ∃ p, Path.parse binding = .ok p ∧
    (p.scope = .dialog ∨ ∀ t level value, (Turn.set t level binding value).1 = .ok ())

theorem Company.selfContained {set : DialogSet} {main d : Dialog} (hd : main.Company d)
    (h : main.SelfContained set) : d.SelfContained set := by
  rcases hd with rfl | ⟨p, rfl⟩
  · exact h
  · exact p.selfContained

theorem Company.delivers {main d : Dialog} (hd : main.Company d) (h : main.Delivers) :
    d.Delivers := by
  rcases hd with rfl | ⟨p, rfl⟩
  · exact h
  · rintro binding ⟨⟩

end Dialog

/-- The id means the dialog or a prompt. -/
def DialogSet.Casts (set : DialogSet) (main : Dialog) (id : String) : Prop :=
  ∃ d, set.find? id = some d ∧ main.Company d

namespace Turn

/-- Only the dialog and prompts run, each with a memory of its own. -/
def Tidy (set : DialogSet) (main : Dialog) (t : Turn) : Prop := t.stack.Held (set.Casts main)

/-- Something runs. -/
def Ready (set : DialogSet) (main : Dialog) (t : Turn) : Prop :=
  t.Tidy set main ∧ t.stack ≠ []

/-- The status fits the stack. A failure leaves something running as long as outputs can be
delivered. -/
def Settled (set : DialogSet) (main : Dialog) (outcome : Except Fault TurnResult) (t : Turn) :
    Prop :=
  t.Tidy set main ∧
    match outcome with
    | .ok r => r.Fits t.stack
    | .error _ => main.Delivers → t.stack ≠ []

/-- What a begin leaves over a stack of some depth: a failure leaves an empty stack empty. -/
def Begun (set : DialogSet) (main : Dialog) (depth : Nat) (outcome : Except Fault TurnResult)
    (t : Turn) : Prop :=
  t.Tidy set main ∧
    match outcome with
    | .ok r => r.Fits t.stack
    | .error _ => (depth = 0 → t.stack = []) ∧ (depth ≠ 0 → main.Delivers → t.stack ≠ [])

theorem Begun.settled {set : DialogSet} {main : Dialog} {depth : Nat}
    {outcome : Except Fault TurnResult} {t : Turn} (h : t.Begun set main depth outcome)
    (hdepth : depth ≠ 0) : t.Settled set main outcome := by
  obtain ⟨htidy, hpost⟩ := h
  cases outcome with
  | ok r => exact ⟨htidy, hpost⟩
  | error e => exact ⟨htidy, hpost.2 hdepth⟩

theorem Ready.settled_error {set : DialogSet} {main : Dialog} {t : Turn} (h : t.Ready set main)
    (e : Fault) : t.Settled set main (.error e) := ⟨h.1, fun _ => h.2⟩

end Turn

/-- What a hook leaves behind. -/
def Hook.Leaves (set : DialogSet) (main : Dialog) :
    (hook : Hook) → Except Fault hook.Reply → Turn → Prop
  | .begin _ | .advance | .resume _ _ => Turn.Settled set main
  | .reprompt | .close _ => fun _ t => t.Ready set main
  | .before _ | .after _ => fun outcome t => outcome = .ok false ∧ t.Ready set main

/-- A turn with a property, and the same with its stack inside frames. -/
def Beside (F : List Frame) (P : Turn → Prop) (t t' : Turn) : Prop := P t ∧ t' = t.inside F

/-- Whatever was answered, the turns are left beside each other. -/
def BesideAfter (F : List Frame) (Q : Except Fault α → Turn → Prop) (outcome : Except Fault α) :
    Turn → Turn → Prop := Beside F (Q outcome)

/-- The view is one of a context over the set, at the level inside the frames. -/
structure View.Inside (v : View) (set : DialogSet) (F : List Frame) : Prop where
  own : v.own = set
  level : v.level = F.length

theorem View.Inside.find? {v : View} {set : DialogSet} {F : List Frame} (h : v.Inside set F)
    {id : String} {d : Dialog} (hd : set.find? id = some d) : v.find? id = some d := by
  simp [View.find?, View.sets, h.own, hd]

theorem View.inside_root (set : DialogSet) : View.Inside { own := set } set [] := ⟨rfl, rfl⟩

namespace Engine
open Eval

variable {set : DialogSet} {main : Dialog} {F : List Frame} {v : View}

/-- The root context over a set. -/
abbrev root (set : DialogSet) : View := { own := set }

/-- Both sides read their turns and go on from the same. -/
theorem lockstep_read {P : Turn → Prop} {f g : Turn → Eval α}
    {Q : Except Fault α → Turn → Turn → Prop}
    (h : ∀ t, P t → Lockstep (Beside F (· = t)) (f t) (g (t.inside F)) Q) :
    Lockstep (Beside F P) (turn >>= f) (turn >>= g) Q := by
  refine lockstep_turn fun t t' ht => ?_
  obtain ⟨hP, rfl⟩ := ht
  refine lockstep_pre (h t hP) fun u u' hu => ?_
  obtain ⟨rfl, rfl⟩ := hu
  exact ⟨rfl, rfl⟩

/-- From a turn with a property to any turns with it. -/
theorem lockstep_from {P : Turn → Prop} {x y : Eval α}
    {Q : Except Fault α → Turn → Turn → Prop} (h : Lockstep (Beside F P) x y Q) {t : Turn}
    (ht : P t) : Lockstep (Beside F (· = t)) x y Q := by
  refine lockstep_pre h fun u u' hu => ?_
  obtain ⟨rfl, rfl⟩ := hu
  exact ⟨ht, rfl⟩

theorem alike_inside (hv : v.Inside set F) {t : Turn} (ht : t.Tidy set main) :
    ((root set).sight t).Alike set (v.sight (t.inside F)) where
  turn := rfl
  stack := by
    simp only [View.sight, hv.level, Turn.stackAt?_inside]
    rfl
  memory := by
    simp only [View.sight, hv.level]
    exact Turn.memory?_inside ht F
  described id hid := by
    obtain ⟨d, hd⟩ := Option.isSome_iff_exists.mp hid
    have hview (w : View) : w.atLevel w.level = w := View.atLevel_of_suffix (List.suffix_refl _)
    simp only [View.sight, View.describe, hview, hv.find? hd, (View.inside_root set).find? hd]
  registered := by simp only [View.sight, hv.own]

theorem lockstep_edit (hv : v.Inside set F) (e : Edit α) :
    Lockstep (Beside F (Turn.Ready set main)) (onTurn (e.apply (root set).level))
      (onTurn (e.apply v.level)) (BesideAfter F fun _ => Turn.Ready set main) := by
  refine lockstep_onTurn fun t t' ht => ?_
  obtain ⟨⟨htidy, hne⟩, rfl⟩ := ht
  obtain ⟨hheld, hlength⟩ := Turn.edit_held htidy e
  rw [hv.level, Turn.edit_inside htidy]
  refine ⟨rfl, ⟨hheld, fun hnil => hne ?_⟩, rfl⟩
  rw [← List.length_eq_zero_iff, ← hlength]
  exact List.length_eq_zero_iff.mpr hnil

/-- A local program runs in lockstep with itself further in. -/
theorem lockstep_local (hv : v.Inside set F) {p : Program α} (hp : p.Local set)
    {caller caller' : Caller} {fuel fuel' : Nat} {self self' : Dialog} :
    Lockstep (Beside F (Turn.Ready set main)) (interpret caller fuel self (root set) p)
      (interpret caller' fuel' self' v p) (BesideAfter F fun _ => Turn.Ready set main) := by
  induction hp with
  | done => exact lockstep_ofExcept fun t t' ht => ht
  | look hsame _ ih =>
    refine lockstep_read fun t ht => ?_
    rw [hsame _ _ (alike_inside hv ht.1)]
    exact lockstep_from (ih _) ht
  | edit _ ih => exact lockstep_attempt_bind (lockstep_edit hv _) ih
  | note _ ih =>
    exact lockstep_bind (M := BesideAfter F fun _ => Turn.Ready set main)
      (lockstep_log fun t t' ht => ht) (fun _ => ih) fun e t t' ht => ht

/-! ## Operations -/

/-- Hooks called in both contexts run in lockstep. -/
def InStep (set : DialogSet) (main : Dialog) (F : List Frame) (v : View) (caller : Caller) :
    Prop :=
  ∀ d, main.Company d → ∀ hook, Lockstep (Beside F (Turn.Ready set main))
    (caller (root set) d hook) (caller v d hook) (BesideAfter F (hook.Leaves set main))

section
variable {caller : Caller} (hv : v.Inside set F) (hc : InStep set main F v caller)
include hv

/-- The active frame is the same in both contexts, and its dialog is one of the company. -/
theorem exists_active {t : Turn} (ht : t.Ready set main) : ∃ f d,
    t.active? (root set).level = some f ∧ (t.inside F).active? v.level = some f ∧
      (root set).find? f.id = some d ∧ v.find? f.id = some d ∧ main.Company d := by
  obtain ⟨htidy, hne⟩ := ht
  cases hs : t.stack with
  | nil => exact absurd hs hne
  | cons f rest =>
    obtain ⟨-, d, hd, hcompany⟩ := htidy f (by rw [hs]; exact List.mem_cons_self)
    refine ⟨f, d, ?_, ?_, (View.inside_root set).find? hd, hv.find? hd, hcompany⟩
    · simp [Turn.active?, Turn.stackAt?, View.level, hs, Stack.active?]
    · rw [hv.level, Turn.active?_inside, hs]
      rfl

theorem active?_inside (t : Turn) :
    (t.inside F).active? v.level = t.active? (root set).level := by
  rw [hv.level, Turn.active?_inside]
  rfl

theorem depth_inside (t : Turn) : (t.inside F).depth v.level = t.depth (root set).level := by
  rw [hv.level, Turn.depth_inside]
  rfl

omit hv in
theorem active?_root {t : Turn} (h : t.stack = []) : t.active? (root set).level = none := by
  simp [Turn.active?, Turn.stackAt?, View.level, h, Stack.active?]

omit hv in
theorem depth_root (t : Turn) : t.depth (root set).level = t.stack.length := rfl

theorem lockstep_popFrame :
    Lockstep (Beside F (Turn.Tidy set main)) (popFrame (root set).level) (popFrame v.level)
      (BesideAfter F fun outcome t => outcome.isOk ∧ t.Tidy set main) := by
  refine lockstep_onTurn fun t t' ht => ?_
  obtain ⟨htidy, rfl⟩ := ht
  have hroot : t.stackAt? (root set).level = some t.stack := rfl
  simp only [hv.level, hroot, Turn.stackAt?_inside, Turn.pop, Turn.modifyStack_inside, true_and]
  exact ⟨⟨rfl, htidy.tail⟩, rfl⟩

theorem lockstep_pushFrame {d : Dialog} {id : String} (hd : d.kind ≠ .command)
    (hid : set.Casts main id) :
    Lockstep (Beside F (Turn.Tidy set main))
      (pushFrame (root set).level fun t => newFrame d id t (root set).level)
      (pushFrame v.level fun t => newFrame d id t v.level)
      (BesideAfter F fun outcome t => outcome.isOk ∧ t.Ready set main) := by
  refine lockstep_onTurn fun t t' ht => ?_
  obtain ⟨htidy, rfl⟩ := ht
  have hroot : t.stackAt? (root set).level = some t.stack := rfl
  simp only [hv.level, hroot, Turn.stackAt?_inside, Turn.push, Turn.modifyStack_inside, newFrame,
    if_neg hd, true_and]
  exact ⟨⟨rfl, Stack.held_cons.mpr ⟨⟨rfl, hid⟩, htidy⟩, List.cons_ne_nil _ _⟩, rfl⟩

theorem lockstep_writeSeeds (seeds : List (String × Json)) :
    Lockstep (Beside F (Turn.Ready set main)) (writeSeeds (root set).level seeds)
      (writeSeeds v.level seeds) (BesideAfter F fun _ => Turn.Ready set main) := by
  induction seeds with
  | nil => exact lockstep_pure fun t t' ht => ht
  | cons seed rest ih =>
    exact lockstep_bind (lockstep_edit hv (.set seed.1 seed.2)) (fun _ => ih) fun e t t' ht => ht

theorem readInputs_inside {t : Turn} (ht : t.Tidy set main) (inputs : List InputBinding) :
    readInputs (t.inside F) v.level inputs = readInputs t (root set).level inputs := by
  have hget (path : String) : (t.inside F).get v.level path = t.get (root set).level path := by
    rw [hv.level]
    exact Turn.get_inside ht F path
  induction inputs with
  | nil => rfl
  | cons b rest ih => simp only [readInputs, hget, ih]

omit hv in
/-- A result whose output can be delivered is written, or left over an empty stack. -/
theorem set_delivered {d : Dialog} (hd : d.Delivers) {binding : String}
    (hbinding : d.output = some binding) {p : Path} (hp : Path.parse binding = .ok p) {t : Turn}
    (hscope : p.scope ≠ .dialog ∨ (t.active? (root set).level).isSome) (value : Json) :
    (t.set (root set).level binding value).1 = .ok () ∨ t.stack ≠ [] := by
  obtain ⟨p', hp', hplace⟩ := hd binding hbinding
  obtain rfl : p = p' := Except.ok.inj (hp.symm.trans hp')
  rcases hplace with hdialog | hwritten
  · refine .inr fun hnil => ?_
    rcases hscope with hscope | hscope
    · exact hscope hdialog
    · rw [active?_root hnil] at hscope
      cases hscope
  · exact .inl (hwritten t _ value)

/-- Writing an output fails over an empty stack only if it cannot be delivered. -/
theorem lockstep_writeOutput {d : Dialog} (hd : main.Company d) (result : Option Json) :
    Lockstep (Beside F (Turn.Tidy set main)) (writeOutput (root set) d result)
      (writeOutput v d result) (BesideAfter F fun outcome t => t.Tidy set main ∧
        ∀ e, outcome = .error e → main.Delivers → t.stack ≠ []) := by
  have hdone {outcome : Except Fault Unit} (ho : outcome = .ok ()) : ∀ t : Turn,
      ∀ e, outcome = .error e → main.Delivers → t.stack ≠ [] := by
    rintro t e he
    rw [ho] at he
    cases he
  unfold writeOutput
  cases hbinding : d.output with
  | none => exact lockstep_pure fun t t' ht => ⟨⟨ht.1, hdone rfl t⟩, ht.2⟩
  | some binding =>
    cases result with
    | none => exact lockstep_pure fun t t' ht => ⟨⟨ht.1, hdone rfl t⟩, ht.2⟩
    | some value =>
      cases hparse : Path.parse binding with
      | error e =>
        simp only [hparse]
        refine lockstep_error fun t t' ht => ⟨⟨ht.1, fun _ _ hdelivers => ?_⟩, ht.2⟩
        obtain ⟨p, hp, -⟩ := hd.delivers hdelivers binding hbinding
        rw [hparse] at hp
        cases hp
      | ok p =>
        simp only [hparse]
        refine lockstep_ok (lockstep_read fun t htidy => ?_)
        rw [active?_inside hv]
        split
        · next hscope =>
          refine lockstep_onTurn fun u u' hu => ?_
          obtain ⟨rfl, rfl⟩ := hu
          obtain ⟨hheld, hlength⟩ := Turn.edit_held htidy (.set binding value)
          rw [hv.level, Turn.set_inside htidy]
          refine ⟨rfl, ⟨hheld, fun e he hdelivers => ?_⟩, rfl⟩
          rcases set_delivered (hd.delivers hdelivers) hbinding hparse hscope value with hok | hne
          · rw [hok] at he
            cases he
          · exact List.ne_nil_of_length_pos (hlength ▸ List.length_pos_iff.mpr hne)
        · refine lockstep_pure fun u u' hu => ?_
          obtain ⟨rfl, rfl⟩ := hu
          exact ⟨⟨htidy, hdone rfl u⟩, rfl⟩

/-- A failed begin leaves no more than was there before. -/
theorem lockstep_truncate (depth : Nat) (e : Fault) :
    Lockstep (Beside F (Turn.Settled set main (.error e)))
      (modifyTurn (·.truncate (root set).level depth)) (modifyTurn (·.truncate v.level depth))
      (BesideAfter F fun _ => Turn.Begun set main depth (.error e)) := by
  refine lockstep_modifyTurn fun t t' ht => ?_
  obtain ⟨⟨htidy, hne⟩, rfl⟩ := ht
  refine ⟨⟨htidy.drop _, fun hzero => ?_, fun hdepth hdelivers hnil => hne hdelivers ?_⟩, ?_⟩
  · change t.stack.truncate depth = []
    simp [Stack.truncate, hzero]
  · have hdrop : t.stack.drop (t.stack.length - depth) = [] := hnil
    have hlength := congrArg List.length hdrop
    simp only [List.length_drop, List.length_nil] at hlength
    exact List.length_eq_zero_iff.mp (by omega)
  · simp only [hv.level, Turn.truncate, Turn.modifyStack_inside]
    rfl

include hc

theorem lockstep_endActive (reason : Reason) (result : Option Json) :
    Lockstep (Beside F (Turn.Ready set main)) (endActive caller (root set) reason result)
      (endActive caller v reason result) (BesideAfter F fun outcome t => t.Tidy set main ∧
        ∀ e, outcome = .error e → main.Delivers → t.stack ≠ []) := by
  unfold endActive
  refine lockstep_read fun t ht => ?_
  obtain ⟨f, d, hactive, hinside, hroot, hview, hd⟩ := exists_active hv ht
  simp only [hactive, hinside, hroot, hview]
  refine lockstep_bind (lockstep_from (hc d hd (.close reason)) ht) (fun _ => ?_) ?_
  · refine lockstep_bind (lockstep_pre (lockstep_popFrame hv) fun u u' hu => ⟨hu.1.1, hu.2⟩)
      (fun _ => ?_) ?_
    · exact lockstep_pre (lockstep_writeOutput hv hd result) fun u u' hu => ⟨hu.1.2, hu.2⟩
    · intro e u u' hu
      cases hu.1.1
  · intro e u u' hu
    exact ⟨⟨hu.1.1, fun _ _ _ => hu.1.2⟩, hu.2⟩

theorem lockstep_finish (result : Option Json) :
    Lockstep (Beside F (Turn.Ready set main)) (finish caller (root set) result)
      (finish caller v result) (BesideAfter F (Turn.Settled set main)) := by
  unfold finish
  refine lockstep_read fun t ht => ?_
  have hdepth : t.depth (root set).level ≠ 0 := fun h => ht.2 (List.length_eq_zero_iff.mp h)
  simp only [depth_inside hv, if_neg hdepth]
  refine lockstep_bind (lockstep_from (lockstep_endActive hv hc .ended result) ht) (fun _ => ?_) ?_
  · refine lockstep_read fun u hu => ?_
    by_cases hs : u.stack = []
    · simp only [active?_inside hv, active?_root hs]
      refine lockstep_pure fun w w' hw => ?_
      obtain ⟨rfl, rfl⟩ := hw
      exact ⟨⟨hu.1, .inr ⟨rfl, hs⟩⟩, rfl⟩
    · have hready : u.Ready set main := ⟨hu.1, hs⟩
      obtain ⟨f, d, hactive, hinside, hroot, hview, hd⟩ := exists_active hv hready
      simp only [hactive, hinside, registered, hroot, hview]
      exact lockstep_from (hc d hd (.resume .ended result)) hready
  · intro e u u' hu
    exact ⟨⟨hu.1.1, hu.1.2 e rfl⟩, hu.2⟩

theorem lockstep_advance :
    Lockstep (Beside F (Turn.Ready set main)) (advance caller (root set)) (advance caller v)
      (BesideAfter F (Turn.Settled set main)) := by
  unfold advance
  refine lockstep_read fun t ht => ?_
  obtain ⟨f, d, hactive, hinside, hroot, hview, hd⟩ := exists_active hv ht
  simp only [hactive, hinside, registered, hroot, hview]
  exact lockstep_from (hc d hd .advance) ht

theorem lockstep_offer (event : Event) :
    Lockstep (Beside F (Turn.Ready set main)) (offer caller event (root set) (pure false))
      (offer caller event v (pure false))
      (BesideAfter F fun outcome t => outcome = .ok false ∧ t.Ready set main) := by
  unfold offer
  refine lockstep_read fun t ht => ?_
  obtain ⟨f, d, hactive, hinside, hroot, hview, hd⟩ := exists_active hv ht
  simp only [hactive, hinside, hroot, hview]
  refine lockstep_bind (lockstep_from (hc d hd (.before event)) ht) (fun handled => ?_) ?_
  · cases handled with
    | true =>
      refine lockstep_absurd fun u u' hu => ?_
      cases hu.1.1
    | false =>
      change Lockstep _ (caller (root set) d (.after event)) (caller v d (.after event)) _
      exact lockstep_pre (hc d hd (.after event)) fun u u' hu => ⟨hu.1.2, hu.2⟩
  · intro e u u' hu
    cases hu.1.1

theorem lockstep_reprompt :
    Lockstep (Beside F (Turn.Ready set main)) (reprompt caller (root set)) (reprompt caller v)
      (BesideAfter F fun outcome t => t.Ready set main ∧
        ∀ r, outcome = .ok r → r = .waiting) := by
  have hbubble : ({ name := Event.repromptDialog } : Event).bubble = false := rfl
  simp only [reprompt, emit_eq_offer caller _ hbubble]
  refine lockstep_bind (lockstep_offer hv hc _) (fun handled => ?_) ?_
  · cases handled with
    | true =>
      refine lockstep_absurd fun u u' hu => ?_
      cases hu.1.1
    | false =>
      refine lockstep_read fun t ht => ?_
      obtain ⟨-, hready⟩ := ht
      obtain ⟨f, d, hactive, hinside, hroot, hview, hd⟩ := exists_active hv hready
      simp only [hactive, hinside, registered, hroot, hview]
      refine lockstep_bind (lockstep_from (hc d hd .reprompt) hready) (fun _ => ?_) ?_
      · refine lockstep_pure fun u u' hu => ⟨⟨hu.1, fun r hr => ?_⟩, hu.2⟩
        exact (Except.ok.inj hr).symm
      · intro e u u' hu
        refine ⟨⟨hu.1, ?_⟩, hu.2⟩
        rintro r ⟨⟩
  · intro e u u' hu
    cases hu.1.1

theorem lockstep_pushAndBegin (hmain : main.SelfContained set) {d : Dialog} {id : String}
    (hid : set.find? id = some d) (hd : main.Company d) (inputs : List (String × Json))
    (options : Option Json) {t : Turn} (ht : t.Tidy set main) :
    Lockstep (Beside F (· = t)) (pushAndBegin caller (root set) d id inputs options)
      (pushAndBegin caller v d id inputs options)
      (BesideAfter F (Turn.Begun set main t.stack.length)) := by
  unfold pushAndBegin
  refine lockstep_read fun u hu => ?_
  subst hu
  rw [depth_inside hv, depth_root]
  have hcommand := (hd.selfContained hmain).notCommand
  refine lockstep_bind (lockstep_from (lockstep_pushFrame hv hcommand ⟨d, hid, hd⟩) ht)
    (fun _ => lockstep_attempt_bind (M := BesideAfter F (Turn.Settled set main)) ?_ fun r => ?_) ?_
  · refine lockstep_bind (lockstep_pre (lockstep_writeSeeds hv _) fun w w' hw => ⟨hw.1.2, hw.2⟩)
      (fun _ => hc d hd (.begin options)) fun e w w' hw => ?_
    exact ⟨hw.1.settled_error e, hw.2⟩
  · cases r with
    | ok r => exact lockstep_pure fun w w' hw => hw
    | error e =>
      exact lockstep_bind (lockstep_truncate hv _ e) (fun _ => lockstep_throw fun w w' hw => hw)
        fun e' w w' hw => ⟨⟨hw.1.1, hw.1.2⟩, hw.2⟩
  · intro e w w' hw
    cases hw.1.1

theorem lockstep_begin (hmain : main.SelfContained set) {id : String} (hid : set.Casts main id)
    (options : Option Json) {t : Turn} (ht : t.Tidy set main) :
    Lockstep (Beside F (· = t)) (begin caller (root set) id options) (begin caller v id options)
      (BesideAfter F (Turn.Begun set main t.stack.length)) := by
  obtain ⟨d, hfound, hd⟩ := hid
  have hunchanged (e : Fault) : ∀ u u', Beside F (· = t) u u' →
      Beside F (Turn.Begun set main t.stack.length (.error e)) u u' := by
    rintro u u' ⟨rfl, rfl⟩
    exact ⟨⟨ht, List.length_eq_zero_iff.mp, fun hne _ hnil => hne (by rw [hnil]; rfl)⟩, rfl⟩
  have hlook (w : View) (hw : w.find? id = some d) :
      lookUp w id = if id.isEmpty then .error .emptyDialogId else .ok d := by
    simp only [lookUp, hw]
  unfold begin
  rw [hlook _ ((View.inside_root set).find? hfound), hlook _ (hv.find? hfound)]
  by_cases hempty : id.isEmpty
  · rw [if_pos hempty]
    exact lockstep_throw (hunchanged _)
  · rw [if_neg hempty]
    refine lockstep_read fun u hu => ?_
    subst hu
    rw [readInputs_inside hv ht]
    cases hinputs : readInputs u (root set).level d.inputs with
    | error e => exact lockstep_error (hunchanged e)
    | ok inputs =>
      exact lockstep_ok (lockstep_pushAndBegin hv hc hmain hfound hd inputs options ht)

end

/-! ## Hooks -/

section
variable (hv : v.Inside set F) (hmain : main.SelfContained set)
include hv hmain

theorem lockstep_closing {caller : Caller} (hc : InStep set main F v caller) {fuel : Nat}
    {self : Dialog} (hself : main.Company self) {p : Program TurnResult} (hp : p.Closing set) :
    Lockstep (Beside F (Turn.Ready set main)) (interpret caller fuel self (root set) p)
      (interpret caller fuel self v p) (BesideAfter F (Turn.Settled set main)) := by
  induction hp with
  | wait => exact lockstep_ofExcept fun t t' ht => ⟨⟨ht.1.1, .inl ⟨rfl, ht.1.2⟩⟩, ht.2⟩
  | fail => exact lockstep_ofExcept fun t t' ht => ⟨ht.1.settled_error _, ht.2⟩
  | look hsame _ ih =>
    refine lockstep_read fun t ht => ?_
    rw [hsame _ _ (alike_inside hv ht.1)]
    exact lockstep_from (ih _) ht
  | edit _ ih => exact lockstep_attempt_bind (lockstep_edit hv _) ih
  | note _ ih =>
    exact lockstep_bind (M := BesideAfter F fun _ => Turn.Ready set main)
      (lockstep_log fun t t' ht => ht) (fun _ => ih) fun e t t' ht => ⟨ht.1.settled_error e, ht.2⟩
  | @prompt id options p hp =>
    rw [Program.begin, interpret_run, interpret_run]
    intro s s' hs
    obtain ⟨hready, hinside⟩ := hs
    have hbegin := lockstep_begin hv hc hmain ⟨_, hp, .inr ⟨p, rfl⟩⟩ options hready.1
    refine lockstep_post hbegin (fun outcome t t' ht => ⟨ht.1.settled ?_, ht.2⟩) ⟨rfl, hinside⟩
    exact fun hzero => hready.2 (List.length_eq_zero_iff.mp hzero)
  | finish =>
    rw [Program.finish, interpret_run, interpret_run]
    exact lockstep_finish hv hc _
  | next =>
    rw [interpret_run, interpret_run]
    exact hc self hself (.resume .advanced _)

/-- All hooks of the company run in lockstep, with whatever fuel. -/
theorem inStep_call (fuel : Nat) : InStep set main F v (call fuel) := by
  induction fuel with
  | zero => exact fun d hd hook => lockstep_exhausted
  | succ fuel ih =>
    intro d hd hook
    have hself := hd.selfContained hmain
    refine lockstep_read fun t ht => lockstep_entered (lockstep_from ?_ ht)
    cases hook with
    | begin options => exact lockstep_closing hv hmain ih hd (hself.begins options)
    | advance => exact lockstep_closing hv hmain ih hd hself.advances
    | resume reason result => exact lockstep_closing hv hmain ih hd (hself.resumes reason result)
    | reprompt => exact lockstep_local hv hself.reprompts
    | close reason => exact lockstep_local hv (hself.closes reason)
    | before event =>
      rw [Dialog.program, hself.before]
      exact lockstep_pure fun u u' hu => ⟨⟨rfl, hu.1⟩, hu.2⟩
    | after event =>
      rw [Dialog.program, hself.after]
      exact lockstep_pure fun u u' hu => ⟨⟨rfl, hu.1⟩, hu.2⟩

end
end Engine
end Colloquy
