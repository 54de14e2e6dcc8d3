import Colloquy.Proofs.Runs.Stretch

/-!
# Results that are passed on

A dialog that does not say what it does when it is resumed ends with the result that it is
given. So a result goes down the stack by itself: each of these frames is told of its end and
taken off, until there is a frame whose dialog wants the result, one that nothing is registered
for, or none at all.
-/
namespace Colloquy

namespace Dialog

/-- A dialog whose result goes nowhere but to the frame below, and whose end hook neither fails
nor moves anything. -/
structure Quiet (v : View) (d : Dialog) : Prop where
  unbound : d.output = none
  closes : d.Harmless v (.close .ended)

/-- A dialog that ends with what it is resumed with. -/
structure PassesOn (v : View) (d : Dialog) : Prop extends d.Quiet v where
  resumes : d.onResume = fun _ result => Program.finish result

end Dialog

/-- The entries for the end of the active frame: its dialog, if there is one, is told once,
while the frame is active over what is below it. -/
inductive Departs (v : View) (f : Frame) (below : Stack) : List Entry → Prop
  | unknown (hd : v.find? f.id = none) : Departs v f below []
  | told {d : Dialog} {turn : Turn} {during : List Entry} (hd : v.find? f.id = some d)
      (hturn : Stack.level? v.level turn.shape = some (f :: below)) :
      Departs v f below [.called (.of v d turn (.close .ended)) (.ok ()) during]

/-- The entries while a result goes down from a frame through those below it to the rest of the
stack. Each of them ends before the next is resumed with the result, and from there on all
happens during that call. At the end stand the entries that the rest of the stack has made, and
its answer is the answer of every call. -/
inductive GoesDown (v : View) (result : Option Json) (rest : Stack)
    (answer : Except Fault TurnResult) (last : List Entry) :
    Frame → Stack → List Entry → Prop
  | arrived {f : Frame} {ending : List Entry} (hend : Departs v f rest ending) :
      GoesDown v result rest answer last f [] (ending ++ last)
  | passed {f g : Frame} {passing : Stack} {ending during : List Entry} {d : Dialog} {turn : Turn}
      (hend : Departs v f (g :: (passing ++ rest)) ending) (hd : v.find? g.id = some d)
      (hturn : Stack.level? v.level turn.shape = some (g :: (passing ++ rest)))
      (hnext : GoesDown v result rest answer last g passing during) :
      GoesDown v result rest answer last f (g :: passing)
        (ending ++ [.called (.of v d turn (.resume .ended result)) answer during])

/-- What an evaluation gives, with entries around those that it has made. -/
def Eval.among (around : Except Fault α → List Entry → List Entry)
    (r : Except Fault α × Session) : Except Fault α × Session :=
  (r.1, { r.2 with journal := around r.1 r.2.journal })

theorem Eval.among_comp (outer inner : Except Fault α → List Entry → List Entry) :
    Eval.among outer ∘ Eval.among inner =
      Eval.among fun answer entries => outer answer (inner answer entries) := rfl

namespace Engine
variable {caller : Caller} {v : View} {d : Dialog} {s s' : Session} {f g : Frame}
  {passing below rest : Stack} {fuel : Nat} {result : Option Json} {t : Turn}

/-- What is entered for a call does not depend on what was entered before. -/
theorem call_among (fuel : Nat) (v : View) (d : Dialog) (hook : Hook) (s : Session) :
    call fuel v d hook s =
      (call fuel v d hook { turn := s.turn }).map
        (Eval.among fun _ entries => s.journal ++ entries) := by
  cases fuel with
  | zero => rfl
  | succ fuel =>
    rw [call_stretch (s := s) rfl, call_stretch (s := { turn := s.turn }) rfl, Option.map_map]
    rfl

/-! ## The rest of the stack -/

theorem handOver_completes (hidle : s.turn.active? v.level = none) :
    handOver caller v result s = some (.ok (.completed result), s) := by
  simp only [handOver, Eval.bind_apply, Eval.turn, hidle]
  rfl

theorem handOver_unregistered (hg : s.turn.active? v.level = some g)
    (hd : v.find? g.id = none) :
    handOver caller v result s = some (.error (.unregistered g.id .resuming), s) := by
  simp only [handOver, Eval.bind_apply, Eval.turn, hg, registered, hd]
  rfl

theorem handOver_resumes (hg : s.turn.active? v.level = some g) (hd : v.find? g.id = some d) :
    handOver caller v result s = caller v d (.resume .ended result) s := by
  simp only [handOver, Eval.bind_apply, Eval.turn, hg, registered, hd]

theorem handOver_among (fuel : Nat) (v : View) (result : Option Json) (s : Session) :
    handOver (call fuel) v result s =
      (handOver (call fuel) v result { turn := s.turn }).map
        (Eval.among fun _ entries => s.journal ++ entries) := by
  cases hg : s.turn.active? v.level with
  | none =>
    rw [handOver_completes hg, handOver_completes (s := { turn := s.turn }) hg, Option.map_some,
      Eval.among, List.append_nil]
  | some g =>
    cases hd : v.find? g.id with
    | none =>
      rw [handOver_unregistered hg hd, handOver_unregistered (s := { turn := s.turn }) hg hd,
        Option.map_some, Eval.among, List.append_nil]
    | some d =>
      rw [handOver_resumes hg hd, handOver_resumes (s := { turn := s.turn }) hg hd]
      exact call_among fuel v d _ s

/-! ## Going down -/

/-- A frame is taken off once its dialog, if there is one, was told. -/
theorem endActive_departs (hs : Stack.level? v.level s.turn.shape = some (f :: below))
    (hquiet : ∀ d, v.find? f.id = some d → d.Quiet v) (result : Option Json) :
    ∃ n s' ending,
      (∀ fuel ≥ n, endActive (call fuel) v .ended result s = some (.ok (), s')) ∧
      s'.turn.shape = Stack.put v.level below s.turn.shape ∧
      s'.journal = s.journal ++ ending ∧ Departs v f below ending := by
  cases hd : v.find? f.id with
  | none =>
    exact ⟨0, _, [], fun fuel _ => endActive_unknown hs hd, Turn.shape_pop hs, by simp,
      .unknown hd⟩
  | some d =>
    obtain ⟨hunbound, hcloses⟩ := hquiet d hd
    obtain ⟨n, s', during, hend, hshape, hjournal⟩ :=
      endActive_harmless hd hcloses (writeOutput_unbound v hunbound result) hs
    exact ⟨n, s', _, hend, hshape, hjournal, .told hd hs⟩

theorem finish_handsOver (hs : Stack.level? v.level s.turn.shape = some (f :: below))
    (hend : endActive caller v .ended result s = some (.ok (), s')) :
    finish caller v result s = handOver caller v result s' := by
  have hdepth := depth_ne_zero hs
  simp only [finish, Eval.bind_apply, Eval.turn, if_neg hdepth, hend]
  rfl

/-- A frame that passes its result on ends with it, during the call that resumes it. -/
theorem call_passesOn (hd : d.PassesOn v) (fuel : Nat) (result : Option Json) (s : Session) :
    call (fuel + 1) v d (.resume .ended result) s =
      (finish (call fuel) v result { turn := s.turn }).map (Eval.among fun answer during =>
        s.journal ++ [.called (.of v d s.turn (.resume .ended result)) answer during]) := by
  have hprogram : d.program (.resume .ended result) = Program.run (.finish result) := by
    rw [Dialog.program, hd.resumes]
    rfl
  have hstretch : (d.program (.resume .ended result)).stretch v s.turn =
      ⟨Program.run (.finish result), s.turn, []⟩ := by
    rw [hprogram]
    rfl
  rw [call_stretch hstretch, interpret_run]
  rfl

/-- The result comes to the rest of the stack, and what is made of it there is the answer. -/
theorem finish_goesDown (hs : Stack.level? v.level s.turn.shape = some (f :: (passing ++ rest)))
    (hquiet : ∀ d, v.find? f.id = some d → d.Quiet v)
    (hpassing : ∀ g ∈ passing, ∃ d, v.find? g.id = some d ∧ d.PassesOn v)
    (result : Option Json) :
    ∃ (n : Nat) (t : Turn) (entries : Except Fault TurnResult → List Entry → List Entry),
      t.shape = Stack.put v.level rest s.turn.shape ∧
      (∀ answer last, GoesDown v result rest answer last f passing (entries answer last)) ∧
      ∀ fuel ≥ n, finish (call (fuel + passing.length)) v result s =
        (handOver (call fuel) v result { turn := t }).map
          (Eval.among fun answer last => s.journal ++ entries answer last) := by
  induction passing generalizing s f with
  | nil =>
    obtain ⟨n, s₁, ending, hend, hshape, hjournal, hdeparts⟩ :=
      endActive_departs hs hquiet result
    refine ⟨n, s₁.turn, fun _ last => ending ++ last, hshape, fun answer last => .arrived hdeparts,
      fun fuel hfuel => ?_⟩
    rw [List.length_nil, Nat.add_zero, finish_handsOver hs (hend fuel hfuel), handOver_among,
      hjournal]
    simp only [List.append_assoc]
  | cons g passing ih =>
    obtain ⟨n, s₁, ending, hend, hshape, hjournal, hdeparts⟩ :=
      endActive_departs hs hquiet result
    obtain ⟨d, hd, hpasses⟩ := hpassing g List.mem_cons_self
    have hs₁ : Stack.level? v.level s₁.turn.shape = some (g :: (passing ++ rest)) := by
      rw [hshape]
      exact Stack.level?_put hs _
    have hg : ∀ d', v.find? g.id = some d' → d'.Quiet v := by
      intro d' hd'
      obtain rfl := Option.some.inj (hd.symm.trans hd')
      exact hpasses.toQuiet
    obtain ⟨m, t, entries, hshape', hdown, hfinish⟩ := ih (s := { turn := s₁.turn }) hs₁ hg
      fun g' hg' => hpassing g' (List.mem_cons_of_mem g hg')
    refine ⟨max n m, t, fun answer last => ending ++
      [.called (.of v d s₁.turn (.resume .ended result)) answer (entries answer last)], ?_,
      fun answer last => .passed hdeparts hd hs₁ (hdown answer last), fun fuel hfuel => ?_⟩
    · rw [hshape', hshape, Stack.put_put]
    · obtain ⟨h, hh, -, hhd⟩ := View.active?_of_shape hs₁ hd
      have hended := hend (fuel + passing.length + 1) (by omega)
      have hnext := hfinish fuel (by omega)
      rw [List.length_cons, ← Nat.add_assoc, finish_handsOver hs hended,
        handOver_resumes hh hhd, call_passesOn hpasses, hnext, Option.map_map, Eval.among_comp,
        hjournal]
      simp only [List.nil_append, List.append_assoc]

/-- A dialog ends with a result among dialogs without output bindings, whose end hooks neither
fail nor move anything, and the frames next below it pass on what they are resumed with. Then it
and these are taken off, from the top down and each told once of its end, and no other stack is
touched. If none is left, the stack has completed with that very result. If nothing is registered
for the next frame, this is the fault, and the frame is still there. Otherwise its dialog is
resumed with the result, once, and its answer is the answer. -/
theorem finish_passing (v : View) (s : Session) (f : Frame) (passing rest : Stack)
    (hstack : s.turn.stackAt? v.level = some (f :: (passing ++ rest)))
    (hquiet : ∀ d, v.find? f.id = some d → d.Quiet v)
    (hpassing : ∀ g ∈ passing, ∃ d, v.find? g.id = some d ∧ d.PassesOn v)
    (result : Option Json) :
    ∃ (n : Nat) (t : Turn) (entries : Except Fault TurnResult → List Entry → List Entry),
      t.shape = Stack.put v.level (Stack.bare rest) s.turn.shape ∧
      (∀ answer last, GoesDown v result (Stack.bare rest) answer last f.bare (Stack.bare passing)
        (entries answer last)) ∧
      (rest = [] → ∀ fuel ≥ n, finish (call (fuel + passing.length)) v result s =
        some (.ok (.completed result),
          { turn := t, journal := s.journal ++ entries (.ok (.completed result)) [] })) ∧
      (∀ g below, rest = g :: below → v.find? g.id = none →
        (t.active? v.level).map Frame.bare = some g.bare ∧
        ∀ fuel ≥ n, finish (call (fuel + passing.length)) v result s =
          some (.error (.unregistered g.id .resuming),
            { turn := t
              journal := s.journal ++ entries (.error (.unregistered g.id .resuming)) [] })) ∧
      (∀ g below d, rest = g :: below → v.find? g.id = some d → ∀ fuel ≥ n,
        finish (call (fuel + passing.length)) v result s =
          (call fuel v d (.resume .ended result) { turn := t }).map
            (Eval.among fun answer last => s.journal ++ entries answer last) ∧
        ∀ answer s', call fuel v d (.resume .ended result) { turn := t } = some (answer, s') →
          ∃ during, s'.journal = [.called (.of v d t (.resume .ended result)) answer during]) := by
  have happend : Stack.bare (passing ++ rest) = Stack.bare passing ++ Stack.bare rest := by
    simp only [Stack.bare_eq_map, List.map_append]
  have hs : Stack.level? v.level s.turn.shape =
      some (f.bare :: (Stack.bare passing ++ Stack.bare rest)) := by
    rw [Turn.level?_shape_of_stackAt? hstack, Stack.bare_cons, happend]
  obtain ⟨n, t, entries, hshape, hdown, hfinish⟩ := finish_goesDown hs
    (by rwa [Frame.bare_id])
    (by
      intro g hg
      obtain ⟨g', hg', rfl⟩ := Stack.mem_bare.mp hg
      rw [Frame.bare_id]
      exact hpassing g' hg') result
  have ht : Stack.level? v.level t.shape = some (Stack.bare rest) := by
    rw [hshape]
    exact Stack.level?_put hs _
  rw [Stack.length_bare] at hfinish
  refine ⟨n, t, entries, hshape, hdown, ?_, ?_, ?_⟩
  · rintro rfl fuel hfuel
    rw [hfinish fuel hfuel, handOver_completes (Turn.active?_of_shape_nil ht)]
    rfl
  · rintro g below rfl hd
    obtain ⟨g', hg', hbare⟩ := Turn.active?_of_shape ht
    have hid : g'.id = g.id := by rw [← Frame.bare_id g', hbare, Frame.bare_id]
    refine ⟨by rw [hg', Option.map_some, hbare], fun fuel hfuel => ?_⟩
    rw [hfinish fuel hfuel, handOver_unregistered hg' (hid ▸ hd), hid]
    rfl
  · rintro g below d rfl hd fuel hfuel
    obtain ⟨g', hg', -, hgd⟩ :=
      View.active?_of_shape ht (show v.find? g.bare.id = some d by rwa [Frame.bare_id])
    refine ⟨by rw [hfinish fuel hfuel, handOver_resumes hg' hgd], fun answer s' hcall => ?_⟩
    obtain ⟨during, hjournal⟩ := call_journal hcall
    exact ⟨during, hjournal⟩

end Engine

/-! ## A parcel that goes from hand to hand -/

/-- A dialog with no hook of its own but the first. -/
def Dialog.courier (id : String) : Dialog := { id, onBegin := fun _ => pure .waiting }

def View.route : View where
  own := ((Table.empty.insert "door" (.patient "door")).insert "depot" (.courier "depot")).insert
    "van" (.courier "van")

def Session.underway : Session where
  turn :=
    { activity := .message "c" "parcel"
      stack := [.owning "van", .owning "depot", .owning "door"] }

theorem Dialog.passesOn_courier (id : String) (v : View) : (courier id).PassesOn v where
  unbound := rfl
  closes := harmless_of_pure rfl v
  resumes := rfl

/-- The van and the depot are gone, and the parcel is taken at the door. -/
theorem Engine.finish_passing_route : ∃ n t, ∃ entries : List Entry → List Entry,
    t.shape = [{ id := "door" }] ∧ ∀ fuel ≥ n,
      finish (call (fuel + 2)) .route (some (.string "parcel")) .underway =
        some (.ok .waiting, { turn := t, journal := entries [.called
          (.of .route (.patient "door") t (.resume .ended (some (.string "parcel"))))
          (.ok .waiting) []] }) := by
  obtain ⟨n, t, entries, hshape, -, -, -, hresumed⟩ := finish_passing .route .underway
    (.owning "van") [.owning "depot"] [.owning "door"] rfl
    (by
      intro d hd
      obtain rfl := Option.some.inj hd
      exact (Dialog.passesOn_courier "van" .route).toQuiet)
    (by
      intro g hg
      obtain rfl := List.mem_singleton.mp hg
      exact ⟨_, rfl, Dialog.passesOn_courier "depot" .route⟩)
    (some (.string "parcel"))
  refine ⟨n, t, entries (.ok .waiting), hshape, fun fuel hfuel => ?_⟩
  exact (hresumed _ _ (.patient "door") rfl rfl (fuel + 1) (by omega)).1

end Colloquy
