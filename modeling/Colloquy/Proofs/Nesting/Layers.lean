import Colloquy.Dialog.Component
import Colloquy.Proofs.Engine.Beginning
import Colloquy.Proofs.Nesting.Innermost

/-!
# Layers of components

A component around a context passes on what its context is asked, and what comes of that:
it waits with it, fails with it, and ends when it has ended. So an operation of a context
inside any number of components runs in lockstep with the same operation at the root.
-/
namespace Colloquy

namespace Component

/-- The name means, in the set, components one inside the other, and inside the last of
them the innermost set and name. -/
def Nesting (innermost : DialogSet) (id : String) : List Component → DialogSet → String → Prop
  | [], set, name => set = innermost ∧ name = id
  | c :: layers, set, name =>
    name.isEmpty = false ∧ set.find? name = some c.dialog ∧
      Nesting innermost id layers c.dialogs c.initial

/-- The second stack is the first inside frames of the components; where nothing runs, there
are none. -/
def Around : List Component → String → Stack → Stack → Prop
  | [], _, s, u => u = s
  | c :: layers, name, s, u => (s = [] ∧ u = []) ∨
    (s ≠ [] ∧ ∃ (f : Frame) (w : Stack), f.id = name ∧ u = [{ f with children := w }] ∧
      Around layers c.initial s w)

theorem around_nil (layers : List Component) (name : String) : Around layers name [] [] := by
  cases layers with
  | nil => rfl
  | cons c layers => exact .inl ⟨rfl, rfl⟩

theorem Around.nil_iff {layers : List Component} {name : String} {s u : Stack}
    (h : Around layers name s u) : s = [] ↔ u = [] := by
  cases layers with
  | nil =>
    rw [Around] at h
    rw [h]
  | cons c layers =>
    rcases h with ⟨hs, hu⟩ | ⟨hs, f, w, -, hu, -⟩
    · simp [hs, hu]
    · simp [hs, hu]

end Component

/-- A turn with a property, and the same with its stack inside components inside frames. -/
def Within (F : List Frame) (layers : List Component) (name : String) (P : Turn → Prop)
    (t t' : Turn) : Prop :=
  P t ∧ ∃ u, Component.Around layers name t.stack u ∧ t' = (t.running u).inside F

/-- What is left inside components: they are still around unless a failure left nothing. -/
def WithinAfter (F : List Frame) (layers : List Component) (name : String)
    (Q : Except Fault TurnResult → Turn → Prop) (outcome : Except Fault TurnResult)
    (t t' : Turn) : Prop :=
  Q outcome t ∧ ∃ u, t' = (t.running u).inside F ∧
    ((∃ r, outcome = .ok r) ∨ t.stack ≠ [] → Component.Around layers name t.stack u)

namespace Engine
open Eval

variable {F : List Frame} {v : View} {c : Component} {name : String} {fuel : Nat}

/-- A hook that answers at once changes nothing. -/
theorem call_pure {d : Dialog} {hook : Hook} {a : hook.Reply} (h : d.program hook = pure a)
    (fuel : Nat) (v : View) (s : Session) :
    ∃ after, call (fuel + 1) v d hook s = some (.ok a, after) ∧ after.turn = s.turn := by
  simp only [call, bind_apply, turn, entered, h]
  exact ⟨_, rfl, rfl⟩

/-- A component has its own dialogs for a child context. -/
theorem child?_component (hlevel : v.level = F.length) {t : Turn} {f : Frame} {rest : Stack}
    (hf : v.find? f.id = some c.dialog) :
    v.child? ((t.running (f :: rest)).inside F) = some (v.enter c.dialogs) := by
  simp [View.child?, hlevel, hf, Component.dialog]

theorem interpret_hosted {caller : Caller} {self : Dialog} {inner : View} {body : Program α}
    {s : Session} (h : v.child? s.turn = some inner) :
    interpret caller fuel self v (Component.hosted body) s =
      interpret caller fuel self inner body s := by
  simp only [Component.hosted, interpret_bind, Program.inChild, interpret, bind_apply, turn,
    View.at?, h, attempt]
  cases interpret caller fuel self inner body s with
  | none => rfl
  | some r =>
    obtain ⟨outcome, after⟩ := r
    cases outcome <;> rfl

/-- A component ends over whatever it hosts with the result that it is given. -/
theorem finish_component (fuel : Nat) (hlevel : v.level = F.length) {t : Turn} {f : Frame}
    (hf : v.find? f.id = some c.dialog) {s : Session}
    (hs : s.turn = (t.running [f]).inside F) (result : Option Json) :
    ∃ after, finish (call (fuel + 1)) v result s = some (.ok (.completed result), after) ∧
      after.turn = (t.running []).inside F := by
  have hclose : c.dialog.program (.close .ended) = pure () := by
    simp [Dialog.program, Component.dialog, Component.close]
  obtain ⟨told, htold, hturn⟩ := call_pure hclose fuel v s
  have hstack : told.turn.stackAt? v.level = some [f] := by
    rw [hturn, hs, hlevel, Turn.stackAt?_inside]
    rfl
  have hdepth : s.turn.depth v.level ≠ 0 := by
    rw [hs, hlevel, Turn.depth_inside]
    simp
  have hactive : s.turn.active? v.level = some f := by
    rw [hs, hlevel, Turn.active?_inside]
    rfl
  have hpopped : told.turn.pop v.level = (t.running []).inside F := by
    rw [hturn, hs, hlevel, Turn.pop, Turn.modifyStack_inside]
    rfl
  have hidle : ((t.running []).inside F).active? v.level = none := by
    rw [hlevel, Turn.active?_inside]
    rfl
  have houtput : c.dialog.output = none := rfl
  refine ⟨{ told with turn := (t.running []).inside F }, ?_, rfl⟩
  have hend : endActive (call (fuel + 1)) v .ended result s =
      some (.ok (), { told with turn := (t.running []).inside F }) := by
    simp only [endActive, bind_apply, turn, hactive, hf, htold, popFrame_eq hstack, hpopped,
      writeOutput, houtput]
    rfl
  simp only [finish, bind_apply, turn, if_neg hdepth, hend, hidle]
  rfl

/-! ## One layer -/

/-- A component goes on with what came of its context: it waits, fails or ends with it. -/
theorem lockstep_hosted (fuel : Nat) {x : Eval TurnResult} {body : Program TurnResult}
    {R : Turn → Turn → Prop} {Q : Except Fault TurnResult → Turn → Prop} {f : Frame}
    {layers : List Component} {k : Nat} {self : Dialog} (hlevel : v.level = F.length)
    (hf : v.find? f.id = some c.dialog)
    (hchild : ∀ t t', R t t' → v.child? t' = some (v.enter c.dialogs))
    (hQ : ∀ r t, Q (.ok r) t → r.Fits t.stack)
    (h : Lockstep R x (interpret (call (fuel + 1)) k self (v.enter c.dialogs) body)
      (WithinAfter (F ++ [f]) layers c.initial Q)) :
    Lockstep R x (interpret (call (fuel + 1)) k self v (Component.hosted body >>= Component.settle))
      (WithinAfter F (c :: layers) f.id Q) := by
  have hplace (t : Turn) (w : Stack) : (t.running w).inside (F ++ [f]) =
      (t.running [{ f with children := w }]).inside F := Turn.inside_concat F f _
  rw [interpret_bind]
  refine lockstep_bind_right (M := WithinAfter (F ++ [f]) layers c.initial Q) ?_ ?_ ?_
  · intro s s' hs
    rw [interpret_hosted (hchild _ _ hs)]
    exact h hs
  · rintro r t s' ⟨hpost, w, hs', haround⟩
    rw [hplace] at hs'
    rcases hQ r t hpost with ⟨hwaiting, hne⟩ | ⟨hcompleted, hnil⟩
    · refine ⟨s', ?_, hpost, _, hs', fun _ => .inr ⟨hne, f, w, rfl, rfl, haround (.inl ⟨r, rfl⟩)⟩⟩
      simp only [Component.settle, hwaiting]
      rfl
    · obtain ⟨after, hfinish, hafter⟩ :=
        finish_component fuel hlevel (f := { f with children := w }) hf hs' r.result
      refine ⟨after, ?_, hpost, [], hafter, fun _ => .inl ⟨hnil, rfl⟩⟩
      have hr : r = .completed r.result := by rw [TurnResult.completed, ← hcompleted]
      simp only [Component.settle, hcompleted, Program.finish, interpret_run, perform]
      rw [hfinish, ← hr]
  · rintro e t t' ⟨hpost, w, ht', haround⟩
    rw [hplace] at ht'
    refine ⟨hpost, _, ht', fun hsure => ?_⟩
    have hne : t.stack ≠ [] := by
      rcases hsure with ⟨r, hr⟩ | hne
      · cases hr
      · exact hne
    exact .inr ⟨hne, f, w, rfl, rfl, haround (.inr hne)⟩

theorem advance_active {caller : Caller} {d : Dialog} {f : Frame} {s : Session}
    (hactive : s.turn.active? v.level = some f) (hf : v.find? f.id = some d) :
    advance caller v s = caller v d .advance s := by
  simp only [advance, bind_apply, turn, hactive, registered, hf]

/-- A component begins with a frame that owns a memory. -/
theorem exists_pushed (hlevel : v.level = F.length) (c : Component) (name : String) {t : Turn}
    {s : Session} (hs : s.turn = (t.running []).inside F) :
    ∃ after, pushFrame v.level (fun t => newFrame c.dialog name t v.level) s =
        some (.ok (), after) ∧ after.turn = (t.running [.owning name]).inside F := by
  have hstack : s.turn.stackAt? v.level = some [] := by
    rw [hs, hlevel, Turn.stackAt?_inside]
    rfl
  refine ⟨{ s with turn := _ }, ?_, rfl⟩
  simp only [pushFrame, onTurn, hstack, Turn.push]
  rw [hs, hlevel, Turn.modifyStack_inside]
  rfl

/-- Of a failed begin over an empty stack nothing is left. -/
theorem truncate_zero (hlevel : v.level = F.length) (t : Turn) (u : Stack) :
    ((t.running u).inside F).truncate v.level 0 = (t.running []).inside F := by
  rw [hlevel, Turn.truncate, Turn.modifyStack_inside]
  simp [Stack.truncate]

/-- The options are written into the frame of a component that begins. -/
theorem exists_seeded (hlevel : v.level = F.length) (c : Component) (name : String)
    (options : Option Json) : ∃ g : Frame, g.id = name ∧ g.children = [] ∧
      ∀ (t : Turn) (s : Session), s.turn = (t.running [.owning name]).inside F →
        ∃ after, writeSeeds v.level (seeds c.dialog [] options) s = some (.ok (), after) ∧
          after.turn = (t.running [g]).inside F := by
  have hpath : optionsPath c.dialog = "dialog.options" := rfl
  cases options with
  | none => exact ⟨.owning name, rfl, rfl, fun t s hs => ⟨s, rfl, hs⟩⟩
  | some value =>
    refine ⟨{ Frame.owning name with memory := some (Table.empty.insert "options" value) }, rfl,
      rfl, fun t s hs => ?_⟩
    have hparse : Path.parse "dialog.options" =
        .ok { text := "dialog.options", scope := .dialog, keys := ["options"] } :=
      Path.parse_eq (by decide +kernel)
    have hu : (t.running [Frame.owning name]).stackAt? 0 = some [.owning name] := rfl
    have hset : (t.running [Frame.owning name]).set 0 "dialog.options" value =
        (.ok (), t.running
          [{ Frame.owning name with memory := some (Table.empty.insert "options" value) }]) := by
      simp only [Turn.set, hparse, Turn.change, Turn.openMemory_of_owned hu rfl]
      rfl
    have hheld : (t.running [Frame.owning name]).stack.Held fun _ => True :=
      Stack.held_cons.mpr ⟨⟨rfl, trivial⟩, Stack.held_nil⟩
    refine ⟨{ s with turn := _ }, ?_, rfl⟩
    simp only [seeds, hpath, Json.optional, List.nil_append, writeSeeds, bind_apply, onTurn, hs,
      hlevel, Turn.set_inside hheld, hset]
    rfl

/-- A component that is asked again asks its context again. -/
theorem reprompt_component (fuel : Nat) (hlevel : v.level = F.length) {t : Turn} {f : Frame}
    (hf : v.find? f.id = some c.dialog) {s : Session} (hs : s.turn = (t.running [f]).inside F) :
    ∃ inner, inner.turn = s.turn ∧
      (reprompt (call fuel) (v.enter c.dialogs) inner = none →
        reprompt (call (fuel + 1)) v s = none) ∧
      ∀ outcome after, reprompt (call fuel) (v.enter c.dialogs) inner = some (outcome, after) →
        ∃ after', reprompt (call (fuel + 1)) v s = some (outcome.map fun _ => .waiting, after') ∧
          after'.turn = after.turn := by
  have hactive : s.turn.active? v.level = some f := by
    rw [hs, hlevel, Turn.active?_inside]
    rfl
  have hbubble : ({ name := Event.repromptDialog } : Event).bubble = false := rfl
  have hbefore (e : Event) : c.dialog.program (.before e) = pure false := rfl
  have hafter (e : Event) : c.dialog.program (.after e) = pure false := rfl
  obtain ⟨a, ha, hturn⟩ := call_pure (hbefore { name := Event.repromptDialog }) fuel v s
  obtain ⟨b, hb, hturn'⟩ := call_pure (hafter { name := Event.repromptDialog }) fuel v a
  have hsame : b.turn = s.turn := hturn'.trans hturn
  have hemit : emit (call (fuel + 1)) v { name := Event.repromptDialog } false s =
      some (.ok false, b) := by
    simp only [emit_eq_offer _ v hbubble, offer, bind_apply, turn, hactive, hf, ha,
      Bool.false_eq_true, if_false]
    exact hb
  have hchild : v.child? b.turn = some (v.enter c.dialogs) := by
    rw [hsame, hs]
    exact child?_component hlevel hf
  have hactive' : b.turn.active? v.level = some f := by rw [hsame, hactive]
  -- The hook answers nothing of its own, so what remains is the context's outcome.
  have hhook : interpret (call fuel) fuel c.dialog v (c.dialog.program .reprompt)
      { b with journal := [] } = (reprompt (call fuel) (v.enter c.dialogs)
        { b with journal := [] }).map fun r => (r.1.map fun _ => (), r.2) := by
    simp only [Dialog.program, Component.dialog, Component.reprompt, interpret_bind,
      Program.inChild, interpret, bind_apply, turn, View.at?, hchild, attempt, Program.reprompt,
      interpret_run, perform]
    cases reprompt (call fuel) (v.enter c.dialogs) { b with journal := [] } with
    | none => rfl
    | some r =>
      obtain ⟨outcome, after⟩ := r
      cases outcome <;> rfl
  have hall : reprompt (call (fuel + 1)) v s =
      (call (fuel + 1) v c.dialog .reprompt >>= fun _ => pure .waiting) b := by
    simp only [reprompt, bind_apply, hemit, Bool.false_eq_true, if_false, turn, hactive',
      registered, hf]
  refine ⟨{ b with journal := [] }, hsame, fun hnone => ?_, fun outcome after hsome => ?_⟩
  · rw [hall]
    simp only [bind_apply, call, turn, entered, hhook, hnone]
    rfl
  · rw [hall]
    simp only [bind_apply, call, turn, entered, hhook, hsome]
    cases outcome <;> exact ⟨_, rfl, rfl⟩

/-! ## All layers -/

section
variable {innermost : DialogSet} {id : String} {main : Dialog}

theorem lockstep_begin_within (fuel : Nat) (hmain : main.SelfContained innermost)
    (hid : innermost.Casts main id) {layers : List Component}
    (hnesting : Component.Nesting innermost id layers v.own name) (hlevel : v.level = F.length)
    (options : Option Json) :
    Lockstep (Beside F fun t => t.stack = []) (begin (call (fuel + 1)) (root innermost) id options)
      (begin (call (fuel + layers.length + 1)) v name options)
      fun outcome => Within F layers name (Turn.Begun innermost main 0 outcome) := by
  induction layers generalizing F v name with
  | nil =>
    obtain ⟨hown, rfl⟩ := hnesting
    intro s s' hs
    obtain ⟨hnil, hs'⟩ := hs
    have hv : v.Inside innermost F := ⟨hown, hlevel⟩
    have htidy : s.turn.Tidy innermost main := by
      rw [Turn.Tidy, hnil]
      exact Stack.held_nil
    have hbegin := lockstep_begin hv (inStep_call hv hmain (fuel + 1)) hmain hid options htidy
    rw [hnil] at hbegin
    exact lockstep_post hbegin (fun outcome t t' ht => ⟨ht.1, t.stack, rfl, ht.2⟩) ⟨rfl, hs'⟩
  | cons c layers ih =>
    obtain ⟨hname, hfound, hinner⟩ := hnesting
    intro s s' hs
    obtain ⟨hnil, hs'⟩ := hs
    have hf : v.find? name = some c.dialog := by simp [View.find?, View.sets, hfound]
    have hlook : lookUp v name = .ok c.dialog := by simp [lookUp, hname, hf]
    have hstart : s'.turn = (s.turn.running []).inside F := by rw [hs', ← hnil]; rfl
    obtain ⟨g, hgname, hgchildren, hseeded⟩ := exists_seeded hlevel c name options
    rw [begin_of_prepared (d := c.dialog) ⟨hlook, rfl⟩]
    suffices h : Lockstep (fun t t' => t = s.turn ∧ t' = (s.turn.running []).inside F)
        (begin (call (fuel + 1)) (root innermost) id options)
        (pushAndBegin (call (fuel + (layers.length + 1) + 1)) v c.dialog name [] options)
        fun outcome => Within F (c :: layers) name (Turn.Begun innermost main 0 outcome) from
      h ⟨rfl, hstart⟩
    unfold pushAndBegin
    refine lockstep_turn_right fun t t' ht => ?_
    obtain ⟨rfl, rfl⟩ := ht
    have hdepth : ((s.turn.running []).inside F).depth v.level = 0 := by
      rw [hlevel, Turn.depth_inside]
      rfl
    rw [hdepth]
    refine lockstep_prefix
      (fun t t' => t = s.turn ∧ t' = (s.turn.running [.owning name]).inside F) ?_ fun _ => ?_
    · rintro t p ⟨rfl, hp⟩
      obtain ⟨after, hpushed, hafter⟩ := exists_pushed hlevel c name hp
      exact ⟨(), after, hpushed, rfl, hafter⟩
    · refine lockstep_attempt_right (M := WithinAfter F (c :: layers) g.id
        (Turn.Begun innermost main 0)) ?_ ?_
      · refine lockstep_prefix
          (fun t t' => t = s.turn ∧ t' = (s.turn.running [g]).inside F) ?_ fun _ => ?_
        · rintro t p ⟨rfl, hp⟩
          obtain ⟨after, hwritten, hafter⟩ := hseeded s.turn p hp
          exact ⟨(), after, hwritten, rfl, hafter⟩
        · refine lockstep_turn_right fun t t' ht => lockstep_entered_right ?_
          obtain ⟨rfl, rfl⟩ := ht
          have hgf : v.find? g.id = some c.dialog := hgname ▸ hf
          refine lockstep_hosted (fuel + layers.length) hlevel hgf ?_ ?_ ?_
          · rintro u u' ⟨-, rfl⟩
            exact child?_component hlevel hgf
          · exact fun r u hu => hu.2
          · rw [Program.begin, interpret_run]
            refine lockstep_pre (lockstep_post (ih (F := F ++ [g]) (v := v.enter c.dialogs) hinner
              (by simp [hlevel])) ?_) ?_
            · rintro outcome u u' ⟨hbegun, w, haround, hu'⟩
              exact ⟨hbegun, w, hu', fun _ => haround⟩
            · rintro u u' ⟨rfl, rfl⟩
              refine ⟨hnil, ?_⟩
              rw [Turn.inside_concat, hnil, Frame.with_children hgchildren]
      · rintro outcome t p ⟨hbegun, u, hp, haround⟩
        rw [hgname] at haround
        cases outcome with
        | ok r => exact ⟨p, rfl, hbegun, u, haround (.inl ⟨r, rfl⟩), hp⟩
        | error e =>
          have hempty : t.stack = [] := hbegun.2.1 rfl
          refine ⟨{ p with turn := (t.running []).inside F }, ?_, hbegun, [], .inl ⟨hempty, rfl⟩,
            rfl⟩
          simp only [bind_apply, modifyTurn, hp, truncate_zero hlevel]
          rfl

theorem lockstep_advance_within (fuel : Nat) (hmain : main.SelfContained innermost)
    {layers : List Component} (hnesting : Component.Nesting innermost id layers v.own name)
    (hlevel : v.level = F.length) :
    Lockstep (Within F layers name (Turn.Ready innermost main))
      (advance (call (fuel + 1)) (root innermost))
      (advance (call (fuel + layers.length + 1)) v)
      (WithinAfter F layers name (Turn.Settled innermost main)) := by
  induction layers generalizing F v name with
  | nil =>
    obtain ⟨hown, rfl⟩ := hnesting
    have hv : v.Inside innermost F := ⟨hown, hlevel⟩
    refine lockstep_pre (lockstep_post
      (lockstep_advance hv (inStep_call hv hmain (fuel + 1))) ?_) ?_
    · rintro outcome t t' ⟨hsettled, rfl⟩
      exact ⟨hsettled, t.stack, rfl, fun _ => rfl⟩
    · rintro t t' ⟨hready, u, hu, rfl⟩
      rw [hu]
      exact ⟨hready, rfl⟩
  | cons c layers ih =>
    obtain ⟨-, hfound, hinner⟩ := hnesting
    intro s s' hs
    obtain ⟨hready, u, haround, hs'⟩ := hs
    rcases haround with ⟨hnil, -⟩ | ⟨-, f, w, rfl, rfl, haround⟩
    · exact absurd hnil hready.2
    have hf : v.find? f.id = some c.dialog := by simp [View.find?, View.sets, hfound]
    have hactive : s'.turn.active? v.level = some { f with children := w } := by
      rw [hs', hlevel, Turn.active?_inside]
      rfl
    rw [advance_active hactive hf]
    suffices h : Lockstep (fun t t' => t = s.turn ∧ t' = s'.turn)
        (advance (call (fuel + 1)) (root innermost))
        (call (fuel + (layers.length + 1) + 1) v c.dialog .advance)
        (WithinAfter F (c :: layers) f.id (Turn.Settled innermost main)) from h ⟨rfl, rfl⟩
    refine lockstep_turn_right fun t t' ht => lockstep_entered_right ?_
    obtain ⟨rfl, rfl⟩ := ht
    refine lockstep_hosted (fuel + layers.length) hlevel hf ?_ ?_ ?_
    · rintro u u' ⟨-, rfl⟩
      rw [hs']
      exact child?_component hlevel hf
    · exact fun r u hu => hu.2
    · rw [Program.advance, interpret_run]
      refine lockstep_pre (ih (F := F ++ [f]) (v := v.enter c.dialogs) hinner (by simp [hlevel])) ?_
      rintro u u' ⟨rfl, rfl⟩
      refine ⟨hready, w, haround, ?_⟩
      rw [hs', Turn.inside_concat]
      rfl

theorem lockstep_reprompt_within (fuel : Nat) (hmain : main.SelfContained innermost)
    {layers : List Component} (hnesting : Component.Nesting innermost id layers v.own name)
    (hlevel : v.level = F.length) :
    Lockstep (Within F layers name (Turn.Ready innermost main))
      (reprompt (call (fuel + 1)) (root innermost))
      (reprompt (call (fuel + layers.length + 1)) v)
      fun outcome => Within F layers name fun t => t.Ready innermost main ∧
        ∀ r, outcome = .ok r → r = .waiting := by
  induction layers generalizing F v name with
  | nil =>
    obtain ⟨hown, rfl⟩ := hnesting
    have hv : v.Inside innermost F := ⟨hown, hlevel⟩
    refine lockstep_pre (lockstep_post
      (lockstep_reprompt hv (inStep_call hv hmain (fuel + 1))) ?_) ?_
    · rintro outcome t t' ⟨hpost, rfl⟩
      exact ⟨hpost, t.stack, rfl, rfl⟩
    · rintro t t' ⟨hready, u, hu, rfl⟩
      rw [hu]
      exact ⟨hready, rfl⟩
  | cons c layers ih =>
    obtain ⟨-, hfound, hinner⟩ := hnesting
    intro s s' hs
    obtain ⟨hready, u, haround, hs'⟩ := hs
    rcases haround with ⟨hnil, -⟩ | ⟨-, f, w, rfl, rfl, haround⟩
    · exact absurd hnil hready.2
    have hf : v.find? f.id = some c.dialog := by simp [View.find?, View.sets, hfound]
    obtain ⟨inner, hturn, hnone, hsome⟩ :=
      reprompt_component (fuel + layers.length + 1) hlevel (f := { f with children := w }) hf hs'
    have hwithin : Within (F ++ [f]) layers c.initial (Turn.Ready innermost main) s.turn
        inner.turn := by
      refine ⟨hready, w, haround, ?_⟩
      rw [hturn, hs', Turn.inside_concat]
      rfl
    rcases ih (F := F ++ [f]) (v := v.enter c.dialogs) hinner (by simp [hlevel]) hwithin with
      ⟨hx, hy⟩ | ⟨outcome, after, last, hx, hy, ⟨hready', hwaiting⟩, w', haround', hlast⟩
    · exact .inl ⟨hx, hnone hy⟩
    · obtain ⟨after', hafter, hturn'⟩ := hsome outcome last hy
      have hsame : (outcome.map fun _ => TurnResult.waiting) = outcome := by
        cases outcome with
        | ok r => rw [hwaiting r rfl]; rfl
        | error e => rfl
      rw [hsame] at hafter
      refine .inr ⟨outcome, after, after', hx, hafter, ⟨hready', hwaiting⟩,
        [{ f with children := w' }], .inr ⟨hready'.2, f, w', rfl, rfl, haround'⟩, ?_⟩
      rw [hturn', hlast, Turn.inside_concat]
      rfl

end
end Engine
end Colloquy
