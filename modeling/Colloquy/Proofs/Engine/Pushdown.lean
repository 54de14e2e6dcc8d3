import Colloquy.Proofs.Cancellation.Run
import Colloquy.Proofs.Engine.Beginning
import Colloquy.Proofs.Engine.Settling
import Colloquy.Proofs.Library.Operations

/-!
# A stack as a list

Seen from its context a stack is a list: what begins is put in front, what ends is taken
off, and an operation that fails leaves the list alone, unless the dialog that ends has
been told. No other stack is touched. This holds of any number of operations one after
another, as long as the hooks that they call do not use the stacks themselves.
-/
namespace Colloquy

/-- The operations that push and pop. -/
inductive StackOp where
  | begin (id : String) (options : Option Json)
  | replace (id : String) (options : Option Json)
  | finish (result : Option Json)

def StackOp.perform (caller : Caller) (v : View) : StackOp → Eval TurnResult
  | .begin id options => Engine.begin caller v id options
  | .replace id options => Engine.replace caller v id options
  | .finish result => Engine.finish caller v result

/-- Makes operations one after another, whatever comes of each. -/
def Engine.performAll (caller : Caller) (v : View) :
    List StackOp → Eval (List (Except Fault TurnResult))
  | [] => pure []
  | op :: rest => do
    let outcome ← Eval.attempt (op.perform caller v)
    return outcome :: (← performAll caller v rest)

namespace Dialog

/-- Called while a frame of the dialog is active, the hook comes to a result or a fault and
starts, ends and moves nothing. -/
def Still (v : View) (d : Dialog) (hook : Hook) : Prop :=
  ∀ s f, s.turn.active? v.level = some f → v.find? f.id = some d →
    ∃ fuel outcome s', Engine.call fuel v d hook s = some (outcome, s') ∧
      s'.turn.shape = s.turn.shape

/-- A dialog without an output binding that leaves the stacks to those who use it. -/
structure Inert (v : View) (d : Dialog) : Prop where
  begins (options : Option Json) : d.Still v (.begin options)
  resumes (result : Option Json) : d.Still v (.resume .ended result)
  closes : d.Still v (.close .ended)
  unbound : d.output = none

end Dialog

namespace Turn
variable {t : Turn} {level : Nat}

theorem shape_seed (t : Turn) (level : Nat) (seeds : List (String × Json)) :
    (t.seed level seeds).2.shape = t.shape := by
  induction seeds generalizing t with
  | nil => rfl
  | cons entry rest ih =>
    obtain ⟨path, value⟩ := entry
    have hset := shape_set t level path value
    rw [seed]
    cases hresult : t.set level path value with
    | mk outcome after =>
      rw [hresult] at hset
      cases outcome with
      | ok a => exact (ih after).trans hset
      | error e => exact hset

/-- A frame that is put back over the depth that it was taken from stands on what is there. -/
theorem shape_restore {u : Stack} (h : Stack.level? level t.shape = some u) (f : Frame) :
    (Engine.restore level u.length f t).shape = Stack.put level (f.bare :: u) t.shape := by
  have htruncate : (t.truncate level u.length).shape = t.shape := by
    rw [shape_truncate h, Stack.truncate_length, Stack.put_self h]
  rw [← htruncate] at h
  obtain ⟨w, hw, hbare⟩ := stackAt?_of_shape h
  have hlength : w.length = u.length := by rw [← hbare, Stack.length_bare]
  simp only [Engine.restore, hw, if_pos hlength]
  rw [shape_push h, htruncate]

/-- The turn with the id of a replacement written down. -/
def repeating (t : Turn) (id : String) : Turn :=
  { t with scratch := t.scratch.insert "repeatDialogId" (.string id) }

@[simp] theorem repeating_shape (t : Turn) (id : String) : (t.repeating id).shape = t.shape := rfl

end Turn

namespace Engine

/-- How a frame begins onto a turn, for an id that was looked up in another: it is refused
beforehand, it cannot be seeded, or its dialog is told to begin, and the answer counts. -/
inductive Begins (v : View) (asked onto : Turn) (id : String) (options : Option Json) :
    Except Fault TurnResult → List Entry → Prop
  | unprepared {e : Fault} (h : Unprepared v asked id e) :
      Begins v asked onto id options (.error e) []
  | unseeded {d : Dialog} {inputs : List (String × Json)} {e : Fault} {t : Turn}
      (h : Prepared v asked id d inputs)
      (hseed : (onto.push v.level (newFrame d id onto v.level)).seed v.level
        (seeds d inputs options) = (.error e, t)) :
      Begins v asked onto id options (.error e) []
  | told {d : Dialog} {inputs : List (String × Json)} {t : Turn}
      {outcome : Except Fault TurnResult} {during : List Entry} (h : Prepared v asked id d inputs)
      (hseed : (onto.push v.level (newFrame d id onto v.level)).seed v.level
        (seeds d inputs options) = (.ok (), t)) :
      Begins v asked onto id options outcome [.called (.of v d t (.begin options)) outcome during]

/-- What an operation in a turn comes to, where these frames are the stack of the view. -/
inductive Acts (v : View) (t : Turn) :
    Stack → StackOp → Except Fault TurnResult → List Entry → Stack → Prop
  | begin {u : Stack} {id : String} {options : Option Json} {outcome : Except Fault TurnResult}
      {entries : List Entry} (h : Begins v t t id options outcome entries) :
      Acts v t u (.begin id options) outcome entries (if outcome.isOk then { id } :: u else u)
  | replace {u : Stack} {id : String} {options : Option Json} {outcome : Except Fault TurnResult}
      {entries : List Entry}
      (h : Begins v t ((t.repeating id).pop v.level) id options outcome entries) :
      Acts v t u (.replace id options) outcome entries
        (if outcome.isOk then { id } :: u.tail else u)
  | idle {result : Option Json} : Acts v t [] (.finish result) (.ok .empty) [] []
  | held {f : Frame} {rest : Stack} {d : Dialog} {result : Option Json} {e : Fault}
      {during : List Entry} (hd : v.find? f.id = some d) :
      Acts v t (f :: rest) (.finish result) (.error e)
        [.called (.of v d t (.close .ended)) (.error e) during] (f :: rest)
  | emptied {f : Frame} {d : Dialog} {result : Option Json} {during : List Entry}
      (hd : v.find? f.id = some d) :
      Acts v t [f] (.finish result) (.ok (.completed result))
        [.called (.of v d t (.close .ended)) (.ok ()) during] []
  | resumed {f g : Frame} {rest : Stack} {d d' : Dialog} {t' : Turn} {result : Option Json}
      {outcome : Except Fault TurnResult} {during during' : List Entry}
      (hd : v.find? f.id = some d) (hd' : v.find? g.id = some d')
      (ht' : Stack.level? v.level t'.shape = some (g :: rest)) :
      Acts v t (f :: g :: rest) (.finish result) outcome
        [.called (.of v d t (.close .ended)) (.ok ()) during,
          .called (.of v d' t' (.resume .ended result)) outcome during'] (g :: rest)

/-- The stack of the view is exchanged for another, and these entries are made. -/
structure Leaves (v : View) (s : Session) (u : Stack) (entries : List Entry) (s' : Session) :
    Prop where
  shape : s'.turn.shape = Stack.put v.level u s.turn.shape
  journal : s'.journal = s.journal ++ entries

variable {v : View} {d : Dialog} {s s' : Session} {u : Stack} {id : String}
  {options : Option Json} {inputs : List (String × Json)} {asked : Turn}

/-- A hook that is still answers or fails, and is entered. -/
theorem still_settles {hook : Hook} {f : Frame} {rest : Stack} (h : d.Still v hook)
    (hs : Stack.level? v.level s.turn.shape = some (f :: rest)) (hd : v.find? f.id = some d) :
    Eval.Settles (fun fuel => call fuel v d hook) s (fun outcome s' =>
      s'.turn.shape = s.turn.shape ∧
      ∃ during, s'.journal = s.journal ++ [.called (.of v d s.turn hook) outcome during]) := by
  obtain ⟨g, hg, -, hgd⟩ := View.active?_of_shape hs hd
  obtain ⟨n, outcome, s', hcall, hshape⟩ := h s g hg hgd
  exact call_settles hcall ⟨hshape, call_journal hcall⟩

/-! ## Beginning -/

section
variable {caller : Caller} {t : Turn} {e : Fault}

theorem pushFrame_eq (hs : Stack.level? v.level s.turn.shape = some u) (frame : Turn → Frame) :
    pushFrame v.level frame s =
      some (.ok (), { s with turn := s.turn.push v.level (frame s.turn) }) := by
  obtain ⟨w, hw, -⟩ := Turn.stackAt?_of_shape hs
  simp only [pushFrame, Eval.onTurn, hw]

/-- A frame that cannot be seeded is taken off again. -/
theorem pushAndBegin_unseeded (hs : Stack.level? v.level s.turn.shape = some u)
    (hseed : (s.turn.push v.level (newFrame d id s.turn v.level)).seed v.level
      (seeds d inputs options) = (.error e, t)) :
    pushAndBegin caller v d id inputs options s =
      some (.error e, { s with turn := t.truncate v.level u.length }) := by
  have hdepth := Turn.depth_of_shape hs
  simp only [pushAndBegin, Eval.bind_apply, Eval.turn, pushFrame_eq hs, hdepth, Eval.attempt,
    writeSeeds_eq, Eval.onTurn, hseed, Option.map_some]
  rfl

/-- A frame that was seeded stays if its dialog begins, and is taken off again if not. -/
theorem pushAndBegin_told (hs : Stack.level? v.level s.turn.shape = some u)
    (hseed : (s.turn.push v.level (newFrame d id s.turn v.level)).seed v.level
      (seeds d inputs options) = (.ok (), t)) :
    pushAndBegin caller v d id inputs options s =
      (caller v d (.begin options) { s with turn := t }).map fun r => (r.1,
        if r.1.isOk then r.2 else { r.2 with turn := r.2.turn.truncate v.level u.length }) := by
  have hdepth := Turn.depth_of_shape hs
  simp only [pushAndBegin, Eval.bind_apply, Eval.turn, pushFrame_eq hs, hdepth, Eval.attempt,
    writeSeeds_eq, Eval.onTurn, hseed]
  cases caller v d (.begin options) { s with turn := t } with
  | none => rfl
  | some r =>
    obtain ⟨outcome, after⟩ := r
    cases outcome <;> rfl

theorem pushAndBegin_seeded (hs : Stack.level? v.level s.turn.shape = some u)
    (hseed : (s.turn.push v.level (newFrame d id s.turn v.level)).seed v.level
      (seeds d inputs options) = (.ok (), t)) {outcome : Except Fault TurnResult}
    (hbegin : caller v d (.begin options) { s with turn := t } = some (outcome, s')) :
    pushAndBegin caller v d id inputs options s = some (outcome,
      if outcome.isOk then s' else { s' with turn := s'.turn.truncate v.level u.length }) := by
  rw [pushAndBegin_told hs hseed, hbegin, Option.map_some]

end

theorem pushAndBegin_settles (hprepared : Prepared v asked id d inputs) (hinert : d.Inert v)
    (hs : Stack.level? v.level s.turn.shape = some u) (options : Option Json) :
    Eval.Settles (fun fuel => pushAndBegin (call fuel) v d id inputs options) s
      (fun outcome s' => ∃ entries, Begins v asked s.turn id options outcome entries ∧
        Leaves v s (if outcome.isOk then { id } :: u else u) entries s') := by
  have hpushed : (s.turn.push v.level (newFrame d id s.turn v.level)).shape =
      Stack.put v.level ({ id } :: u) s.turn.shape := by
    rw [Turn.shape_push hs, newFrame_bare]
  have htruncated {t : Turn} (ht : t.shape = Stack.put v.level ({ id } :: u) s.turn.shape) :
      (t.truncate v.level u.length).shape = Stack.put v.level u s.turn.shape := by
    have hlevel : Stack.level? v.level t.shape = some ({ id } :: u) := by
      rw [ht]
      exact Stack.level?_put hs _
    rw [Turn.shape_truncate hlevel, ht, Stack.put_put]
    simp [Stack.truncate]
  cases hseed : (s.turn.push v.level (newFrame d id s.turn v.level)).seed v.level
    (seeds d inputs options) with
  | mk seeded t =>
  have ht : t.shape = Stack.put v.level ({ id } :: u) s.turn.shape := by
    have hshape := Turn.shape_seed (s.turn.push v.level (newFrame d id s.turn v.level)) v.level
      (seeds d inputs options)
    rw [hseed] at hshape
    exact hshape.trans hpushed
  cases seeded with
  | error e =>
    have hsame : ∀ fuel, pushAndBegin (call fuel) v d id inputs options s = _ :=
      fun _ => pushAndBegin_unseeded hs hseed
    exact Eval.settles_of_eq hsame ⟨[], .unseeded hprepared hseed, htruncated ht, by simp⟩
  | ok =>
    have hlevel : Stack.level? v.level t.shape = some ({ id } :: u) := by
      rw [ht]
      exact Stack.level?_put hs _
    have hbegins := still_settles (s := { s with turn := t }) (hinert.begins options) hlevel
      (find?_of_lookUp hprepared.found)
    obtain ⟨n, outcome, s₁, hbegin, hshape, during, hjournal⟩ := hbegins
    have hs₁ := hshape.trans ht
    refine ⟨n, _, _, fun fuel hfuel => pushAndBegin_seeded hs hseed (hbegin fuel hfuel),
      [.called (.of v d t (.begin options)) outcome during], .told hprepared hseed, ?_, ?_⟩
    · cases outcome with
      | ok result => exact hs₁
      | error e => exact htruncated hs₁
    · cases outcome <;> exact hjournal

/-- All dialogs that can be found are inert. -/
def AllInert (v : View) : Prop := ∀ id d, v.find? id = some d → d.Inert v

theorem begin_acts (hinert : AllInert v) (hs : Stack.level? v.level s.turn.shape = some u)
    (id : String) (options : Option Json) :
    Eval.Settles (fun fuel => begin (call fuel) v id options) s (fun outcome s' =>
      ∃ entries u', Acts v s.turn u (.begin id options) outcome entries u' ∧
        Leaves v s u' entries s') := by
  rcases prepared_or v s.turn id with ⟨d, inputs, hprepared⟩ | ⟨e, hunprepared⟩
  · have hd := find?_of_lookUp hprepared.found
    have hpush := pushAndBegin_settles hprepared (hinert id d hd) hs options
    refine Eval.settles_congr (fun fuel => begin_of_prepared hprepared)
      (Eval.settles_mono hpush fun outcome s' hpost => ?_)
    obtain ⟨entries, hbegins, hleaves⟩ := hpost
    exact ⟨entries, _, .begin hbegins, hleaves⟩
  · refine Eval.settles_of_eq (fun fuel => begin_of_unprepared hunprepared) ?_
    exact ⟨[], _, .begin (.unprepared hunprepared), (Stack.put_self hs).symm, by simp⟩

/-! ## Replacing -/

/-- The frame that makes room for another comes back if that one does not begin. -/
theorem replace_popped {caller : Caller} (hprepared : Prepared v s.turn id d inputs)
    (hs : Stack.level? v.level s.turn.shape = some u) :
    replace caller v id options s =
      (pushAndBegin caller v d id inputs options
        { s with turn := (s.turn.repeating id).pop v.level }).map fun r => (r.1,
          if r.1.isOk then r.2 else (s.turn.active? v.level).elim r.2 fun f =>
            { r.2 with turn := restore v.level u.tail.length f r.2.turn }) := by
  have hpop : popFrame v.level { s with turn := s.turn.repeating id } =
      some (.ok (s.turn.active? v.level),
        { s with turn := (s.turn.repeating id).pop v.level }) := by
    obtain ⟨w, hw, -⟩ := Turn.stackAt?_of_shape hs
    have hactive : s.turn.active? v.level = w.active? := by simp [Turn.active?, hw]
    have hw' : (s.turn.repeating id).stackAt? v.level = some w := hw
    rw [popFrame_eq (s := { s with turn := s.turn.repeating id }) hw', hactive]
  have hdepth : ((s.turn.repeating id).pop v.level).depth v.level = u.tail.length := by
    have hpopped := Turn.shape_pop (t := s.turn.repeating id) hs
    apply Turn.depth_of_shape
    rw [hpopped]
    exact Stack.level?_put hs _
  have hset : s.turn.set v.level "turn.repeatDialogId" (.string id) =
      (.ok (), s.turn.repeating id) := Turn.set_repeatDialogId s.turn v.level (.string id)
  simp only [replace, hprepared.found, Eval.bind_apply, Eval.turn, Eval.ofExcept, hprepared.bound,
    Eval.onTurn, hset, hpop, hdepth, Eval.attempt]
  cases pushAndBegin caller v d id inputs options
      { s with turn := (s.turn.repeating id).pop v.level } with
  | none => rfl
  | some r =>
    obtain ⟨outcome, after⟩ := r
    cases outcome with
    | ok result => rfl
    | error e => cases s.turn.active? v.level <;> rfl

theorem replace_of_prepared {caller : Caller} (hprepared : Prepared v s.turn id d inputs)
    (hs : Stack.level? v.level s.turn.shape = some u) {outcome : Except Fault TurnResult}
    (hbegin : pushAndBegin caller v d id inputs options
      { s with turn := (s.turn.repeating id).pop v.level } = some (outcome, s')) :
    replace caller v id options s = some (outcome,
      if outcome.isOk then s' else (s.turn.active? v.level).elim s' fun f =>
        { s' with turn := restore v.level u.tail.length f s'.turn }) := by
  rw [replace_popped hprepared hs, hbegin, Option.map_some]

theorem replace_acts (hinert : AllInert v) (hs : Stack.level? v.level s.turn.shape = some u)
    (id : String) (options : Option Json) :
    Eval.Settles (fun fuel => replace (call fuel) v id options) s (fun outcome s' =>
      ∃ entries u', Acts v s.turn u (.replace id options) outcome entries u' ∧
        Leaves v s u' entries s') := by
  rcases prepared_or v s.turn id with ⟨d, inputs, hprepared⟩ | ⟨e, hunprepared⟩
  · have hd := find?_of_lookUp hprepared.found
    have hpopped : ((s.turn.repeating id).pop v.level).shape =
        Stack.put v.level u.tail s.turn.shape := Turn.shape_pop (t := s.turn.repeating id) hs
    have hlevel : Stack.level? v.level ((s.turn.repeating id).pop v.level).shape =
        some u.tail := by
      rw [hpopped]
      exact Stack.level?_put hs _
    obtain ⟨n, outcome, s₁, hbegin, entries, hbegins, hleaves⟩ := pushAndBegin_settles
      (s := { s with turn := (s.turn.repeating id).pop v.level }) hprepared (hinert id d hd)
      hlevel options
    have hshape : s₁.turn.shape =
        Stack.put v.level (if outcome.isOk then { id } :: u.tail else u.tail) s.turn.shape := by
      have hput := hleaves.shape
      simp only [hpopped, Stack.put_put] at hput
      exact hput
    refine ⟨n, _, _, fun fuel hfuel => replace_of_prepared hprepared hs (hbegin fuel hfuel),
      entries, _, .replace hbegins, ?_, ?_⟩
    · cases outcome with
      | ok result => exact hshape
      | error e =>
        have hs₁ : Stack.level? v.level s₁.turn.shape = some u.tail := by
          rw [hshape]
          exact Stack.level?_put hs _
        cases u with
        | nil => simpa [Turn.active?_of_shape_nil hs] using hshape
        | cons f rest =>
          obtain ⟨g, hg, hbare⟩ := Turn.active?_of_shape hs
          have hrestored := Turn.shape_restore hs₁ g
          rw [hshape, Stack.put_put, hbare] at hrestored
          rw [hg]
          exact hrestored
    · cases outcome with
      | ok result => exact hleaves.journal
      | error e => cases s.turn.active? v.level <;> exact hleaves.journal
  · refine Eval.settles_of_eq (fun fuel => replace_of_unprepared hunprepared) ?_
    exact ⟨[], _, .replace (.unprepared hunprepared), (Stack.put_self hs).symm, by simp⟩

/-! ## Ending -/

theorem finish_held {caller : Caller} {f : Frame} {rest : Stack} {result : Option Json} {e : Fault}
    (hs : Stack.level? v.level s.turn.shape = some (f :: rest)) (hd : v.find? f.id = some d)
    (hclose : caller v d (.close .ended) s = some (.error e, s')) :
    finish caller v result s = some (.error e, s') := by
  obtain ⟨g, hg, -, hgd⟩ := View.active?_of_shape hs hd
  have hdepth := depth_ne_zero hs
  simp only [finish, Eval.bind_apply, Eval.turn, if_neg hdepth, endActive, hg, hgd, hclose]

/-- Once the active frame is gone, the result is what an empty stack has completed with. -/
theorem finish_completes {caller : Caller} {f : Frame} {rest : Stack} {result : Option Json}
    (hs : Stack.level? v.level s.turn.shape = some (f :: rest))
    (hend : endActive caller v .ended result s = some (.ok (), s'))
    (hidle : s'.turn.active? v.level = none) :
    finish caller v result s = some (.ok (.completed result), s') := by
  have hdepth := depth_ne_zero hs
  simp only [finish, Eval.bind_apply, Eval.turn, if_neg hdepth, hend, hidle]
  rfl

/-- Once the active frame is gone, the one below it is resumed with the result. -/
theorem finish_resumes {caller : Caller} {f g : Frame} {rest : Stack} {result : Option Json}
    {d : Dialog} (hs : Stack.level? v.level s.turn.shape = some (f :: rest))
    (hend : endActive caller v .ended result s = some (.ok (), s'))
    (hg : s'.turn.active? v.level = some g) (hd : v.find? g.id = some d) :
    finish caller v result s = caller v d (.resume .ended result) s' := by
  have hdepth := depth_ne_zero hs
  simp only [finish, Eval.bind_apply, Eval.turn, if_neg hdepth, hend, hg, registered, hd]

theorem finish_acts (hinert : AllInert v) (hs : Stack.level? v.level s.turn.shape = some u)
    (hknown : ∀ f ∈ u, ∃ d, v.find? f.id = some d) (result : Option Json) :
    Eval.Settles (fun fuel => finish (call fuel) v result) s (fun outcome s' =>
      ∃ entries u', Acts v s.turn u (.finish result) outcome entries u' ∧
        Leaves v s u' entries s') := by
  cases u with
  | nil =>
    have hdepth : s.turn.depth v.level = 0 := Turn.depth_of_shape hs
    have hempty : ∀ fuel, finish (call fuel) v result s = some (.ok .empty, s) := by
      intro fuel
      simp only [finish, Eval.bind_apply, Eval.turn, if_pos hdepth]
      rfl
    exact Eval.settles_of_eq hempty ⟨[], [], .idle, (Stack.put_self hs).symm, by simp⟩
  | cons f rest =>
    obtain ⟨d, hd⟩ := hknown f List.mem_cons_self
    obtain ⟨n, outcome, s₁, hclose, hshape, during, hjournal⟩ :=
      still_settles (hinert f.id d hd).closes hs hd
    cases outcome with
    | error e =>
      refine ⟨n, .error e, s₁, fun fuel hfuel => finish_held hs hd (hclose fuel hfuel), _, _,
        .held hd, ?_, hjournal⟩
      rw [hshape, Stack.put_self hs]
    | ok =>
      have hs₁ : Stack.level? v.level s₁.turn.shape = some (f :: rest) := by rw [hshape, hs]
      have hwrite := writeOutput_unbound v (hinert f.id d hd).unbound result
      have hend (fuel : Nat) (hfuel : fuel ≥ n) :=
        endActive_eq hs hd (hclose fuel hfuel) hs₁ hwrite
      have hpop : (s₁.turn.pop v.level).shape = Stack.put v.level rest s.turn.shape := by
        rw [Turn.shape_pop hs₁, hshape]
        rfl
      have hs₂ : Stack.level? v.level (s₁.turn.pop v.level).shape = some rest := by
        rw [hpop]
        exact Stack.level?_put hs _
      cases rest with
      | nil =>
        have hanswer (fuel : Nat) (hfuel : fuel ≥ n) : finish (call fuel) v result s =
            some (.ok (.completed result), { s₁ with turn := s₁.turn.pop v.level }) :=
          finish_completes hs (hend fuel hfuel) (Turn.active?_of_shape_nil hs₂)
        exact ⟨n, _, _, hanswer, _, _, .emptied hd, hpop, hjournal⟩
      | cons g below =>
        obtain ⟨d', hd'⟩ := hknown g (by simp)
        obtain ⟨m, outcome, s₃, hresume, hshape', during', hjournal'⟩ :=
          still_settles (s := { s₁ with turn := s₁.turn.pop v.level })
            ((hinert g.id d' hd').resumes result) hs₂ hd'
        have hanswer (fuel : Nat) (hfuel : fuel ≥ max n m) :
            finish (call fuel) v result s = some (outcome, s₃) := by
          obtain ⟨h, hh, -, hhd⟩ := View.active?_of_shape hs₂ hd'
          rw [finish_resumes hs (hend fuel (by omega)) hh hhd]
          exact hresume fuel (by omega)
        have hentries : s₃.journal = s.journal ++ [
            .called (.of v d s.turn (.close .ended)) (.ok ()) during,
            .called (.of v d' (s₁.turn.pop v.level) (.resume .ended result)) outcome
              during'] := by
          rw [hjournal', hjournal, List.append_assoc]
          rfl
        exact ⟨max n m, _, _, hanswer, _, _, .resumed hd hd' hs₂, hshape'.trans hpop,
          hentries⟩

/-! ## One operation after another -/

theorem perform_acts (hinert : AllInert v) (hs : Stack.level? v.level s.turn.shape = some u)
    (hknown : ∀ f ∈ u, ∃ d, v.find? f.id = some d) (op : StackOp) :
    Eval.Settles (fun fuel => op.perform (call fuel) v) s (fun outcome s' =>
      ∃ entries u', Acts v s.turn u op outcome entries u' ∧ Leaves v s u' entries s') := by
  cases op with
  | begin id options => exact begin_acts hinert hs id options
  | replace id options => exact replace_acts hinert hs id options
  | finish result => exact finish_acts hinert hs hknown result

theorem Begins.found {onto : Turn} {result : TurnResult} {entries : List Entry}
    (h : Begins v asked onto id options (.ok result) entries) : ∃ d, v.find? id = some d := by
  cases h with
  | told hprepared hseed => exact ⟨_, find?_of_lookUp hprepared.found⟩

/-- What an operation leaves on the stack is registered, if what it finds there is. -/
theorem Acts.known {t : Turn} {u' : Stack} {op : StackOp} {outcome : Except Fault TurnResult}
    {entries : List Entry} (h : Acts v t u op outcome entries u')
    (hknown : ∀ f ∈ u, ∃ d, v.find? f.id = some d) :
    ∀ f ∈ u', ∃ d, v.find? f.id = some d := by
  intro f hf
  cases h with
  | begin hbegins =>
    cases outcome with
    | error e => exact hknown f hf
    | ok result =>
      rcases List.mem_cons.mp hf with rfl | hbelow
      · exact hbegins.found
      · exact hknown f hbelow
  | replace hbegins =>
    cases outcome with
    | error e => exact hknown f hf
    | ok result =>
      rcases List.mem_cons.mp hf with rfl | hbelow
      · exact hbegins.found
      · exact hknown f (List.mem_of_mem_tail hbelow)
  | idle => exact hknown f hf
  | held hd => exact hknown f hf
  | emptied hd => exact absurd hf List.not_mem_nil
  | resumed hd hd' ht' => exact hknown f (List.mem_cons_of_mem _ hf)

/-- The operations made one after another from a session, the stack of the view before
and after each of them, and what each comes to. -/
inductive Pushdown (v : View) : Session → Stack → List StackOp →
    List (Except Fault TurnResult) → Session → Stack → Prop
  | nil {s : Session} {u : Stack} : Pushdown v s u [] [] s u
  | cons {s s₁ s' : Session} {u u₁ u' : Stack} {op : StackOp} {ops : List StackOp}
      {outcome : Except Fault TurnResult} {outcomes : List (Except Fault TurnResult)}
      {entries : List Entry}
      (hperform : ∃ n, ∀ fuel ≥ n, op.perform (call fuel) v s = some (outcome, s₁))
      (hacts : Acts v s.turn u op outcome entries u₁) (hleaves : Leaves v s u₁ entries s₁)
      (hrest : Pushdown v s₁ u₁ ops outcomes s' u') :
      Pushdown v s u (op :: ops) (outcome :: outcomes) s' u'

/-- Whatever the operations, all other stacks are as before. -/
theorem Pushdown.shape {u' : Stack} {ops : List StackOp}
    {outcomes : List (Except Fault TurnResult)} (h : Pushdown v s u ops outcomes s' u')
    (hs : Stack.level? v.level s.turn.shape = some u) :
    s'.turn.shape = Stack.put v.level u' s.turn.shape := by
  induction h with
  | nil => exact (Stack.put_self hs).symm
  | @cons s s₁ s' u u₁ u' op ops outcome outcomes entries _ _ hleaves _ ih =>
    have hs₁ : Stack.level? v.level s₁.turn.shape = some u₁ := by
      rw [hleaves.shape]
      exact Stack.level?_put hs u₁
    rw [ih hs₁, hleaves.shape, Stack.put_put]

theorem pushdown_settles (hinert : AllInert v) (ops : List StackOp)
    (hs : Stack.level? v.level s.turn.shape = some u)
    (hknown : ∀ f ∈ u, ∃ d, v.find? f.id = some d) : ∃ n outcomes s' u',
      (∀ fuel ≥ n, performAll (call fuel) v ops s = some (.ok outcomes, s')) ∧
      Pushdown v s u ops outcomes s' u' := by
  induction ops generalizing s u with
  | nil => exact ⟨0, [], s, u, fun fuel _ => rfl, .nil⟩
  | cons op ops ih =>
    obtain ⟨n, outcome, s₁, hperform, entries, u₁, hacts, hleaves⟩ :=
      perform_acts hinert hs hknown op
    have hs₁ : Stack.level? v.level s₁.turn.shape = some u₁ := by
      rw [hleaves.shape]
      exact Stack.level?_put hs u₁
    obtain ⟨m, outcomes, s', u', hrest, hpushdown⟩ := ih hs₁ (hacts.known hknown)
    have hall (fuel : Nat) (hfuel : fuel ≥ max n m) :
        performAll (call fuel) v (op :: ops) s = some (.ok (outcome :: outcomes), s') := by
      have hfirst : op.perform (call fuel) v s = some (outcome, s₁) := hperform fuel (by omega)
      have hothers := hrest fuel (by omega)
      simp only [performAll, Eval.bind_apply, Eval.attempt, hfirst, Option.map_some, hothers]
      rfl
    exact ⟨max n m, _, s', u', hall, .cons ⟨n, hperform⟩ hacts hleaves hpushdown⟩

/-- Operations on a stack whose frames are registered, among dialogs that leave the stacks
alone, all come to an answer, and the stack is a list that they push to and pop from. -/
theorem performAll_pushdown (v : View) (s : Session) (w : Stack) (ops : List StackOp)
    (hstack : s.turn.stackAt? v.level = some w) (hknown : ∀ f ∈ w, ∃ d, v.find? f.id = some d)
    (hinert : AllInert v) : ∃ n outcomes s' u',
      (∀ fuel ≥ n, performAll (call fuel) v ops s = some (.ok outcomes, s')) ∧
      Pushdown v s (Stack.bare w) ops outcomes s' u' ∧
      s'.turn.shape = Stack.put v.level u' s.turn.shape := by
  have hs : Stack.level? v.level s.turn.shape = some (Stack.bare w) := by
    rw [Turn.level?_shape, hstack]
    rfl
  have hbare : ∀ f ∈ Stack.bare w, ∃ d, v.find? f.id = some d := by
    intro f hf
    obtain ⟨g, hg, rfl⟩ := Stack.mem_bare.mp hf
    obtain ⟨d, hd⟩ := hknown g hg
    exact ⟨d, by rw [Frame.bare_id, hd]⟩
  obtain ⟨n, outcomes, s', u', hperform, hpushdown⟩ := pushdown_settles hinert ops hs hbare
  exact ⟨n, outcomes, s', u', hperform, hpushdown, hpushdown.shape hs⟩

end Engine

/-! ## The pages of a form -/

/-- A page is shown when it begins and when the page after it is done. -/
def Dialog.page (id : String) (shown : Except Fault TurnResult) (left : Except Fault Unit) :
    Dialog :=
  { id
    onBegin := fun _ => .done shown
    onResume := fun _ _ => .done shown
    onClose := fun _ => .done left }

/-- A form of three pages: one is never shown and one is never left. -/
def View.form : View :=
  let missing : Fault := .collaborator "missing"
  let cover : Dialog := .page "cover" (.ok .waiting) (.ok ())
  let blank : Dialog := .page "blank" (.error missing) (.ok ())
  let locked : Dialog := .page "locked" (.ok .waiting) (.error missing)
  let pages : DialogSet :=
    ((Table.empty.insert "cover" cover).insert "blank" blank).insert "locked" locked
  { own := pages
    outer := [Table.empty.insert "form"
      { Dialog.page "form" (.ok .waiting) (.ok ()) with children := some pages }] }

/-- The cover of the form is shown. -/
def Session.opened : Session :=
  { turn :=
    { activity := .message "c" ""
      stack := [{ id := "form", children := [.owning "cover"] }] } }

namespace Dialog
variable {v : View} {d : Dialog}

theorem still_of_done {hook : Hook} {outcome : Except Fault hook.Reply}
    (h : d.program hook = .done outcome) (v : View) : d.Still v hook := by
  intro s f _ _
  have hcall : Engine.call 1 v d hook s = some (outcome,
      { s with journal := s.journal ++ [.called (.of v d s.turn hook) outcome []] }) := by
    simp only [Engine.call, h]
    rfl
  exact ⟨1, outcome, _, hcall, rfl⟩

theorem inert_page (v : View) (id : String) (shown : Except Fault TurnResult)
    (left : Except Fault Unit) (hosted : Option DialogSet) :
    Inert v { page id shown left with children := hosted } where
  begins _ := still_of_done rfl v
  resumes _ := still_of_done rfl v
  closes := still_of_done rfl v
  unbound := rfl

end Dialog

namespace Engine

theorem form_inert : AllInert .form := by
  intro id d hd
  obtain ⟨set, hset, hfound⟩ := List.exists_of_findSome?_eq_some hd
  have hcases : set = View.form.own ∨ set = Table.empty.insert "form" { Dialog.page "form"
      (.ok .waiting) (.ok ()) with children := some View.form.own } := by
    simpa [View.sets, View.form] using hset
  rcases hcases with rfl | rfl
  · simp only [View.form, Table.find?_insert, Table.find?_empty] at hfound
    split at hfound
    · cases hfound
      exact Dialog.inert_page _ _ _ _ none
    split at hfound
    · cases hfound
      exact Dialog.inert_page _ _ _ _ none
    split at hfound
    · cases hfound
      exact Dialog.inert_page _ _ _ _ none
    · cases hfound
  · simp only [Table.find?_insert, Table.find?_empty] at hfound
    split at hfound
    · cases hfound
      exact Dialog.inert_page _ _ _ _ _
    · cases hfound

theorem performAll_pushdown_form :
    let ops : List StackOp := [.begin "cover" none, .begin "blank" none, .begin "" none,
      .finish none, .replace "locked" none, .finish none, .replace "cover" none,
      .finish (some .null), .finish none]
    ∃ n outcomes s' u', (∀ fuel ≥ n,
      performAll (call fuel) .form ops .opened = some (.ok outcomes, s')) ∧
      Pushdown .form .opened [{ id := "cover" }] ops outcomes s' u' ∧
      s'.turn.shape = Stack.put View.form.level u' Session.opened.turn.shape := by
  have hknown : ∀ f ∈ [Frame.owning "cover"], ∃ d, View.form.find? f.id = some d := by
    intro f hf
    obtain rfl := List.mem_singleton.mp hf
    exact ⟨_, rfl⟩
  exact performAll_pushdown .form .opened [.owning "cover"] _ rfl hknown form_inert

end Engine
end Colloquy
