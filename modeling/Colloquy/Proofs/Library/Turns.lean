import Colloquy.Proofs.Library.Hooks
import Colloquy.Proofs.Persistence
import Colloquy.Proofs.Series

/-!
# Turns of library dialogs

A host of library dialogs, begun with nothing stored, keeps stacks that resolve. Each
of its turns is waiting or completed as the stack it keeps is not or is empty, and does
not fail for a stack that does not fit the dialogs.
-/
namespace Colloquy

theorem View.Library.leafUnder {v : View} (h : v.Library) (f : Frame) :
    (v.leafUnder f).Library := by
  fun_induction View.leafUnder v f with
  | case1 v => exact h
  | case2 v id _ _ f below hnone => exact h
  | case3 v id _ _ f below hosted hsome ih =>
    obtain ⟨d, hd, hset⟩ := Option.bind_eq_some_iff.mp hsome
    exact ih (h.enter ((h.find? hd).children_library hset))

theorem View.Library.leaf {v : View} (h : v.Library) (t : Turn) : (v.leaf t).Library := by
  unfold View.leaf
  cases t.active? v.level with
  | none => exact h
  | some f => exact h.leafUnder f

namespace Registered
variable {P : View → Dialog → Prop} {v : View}

/-- Being registered does not depend on memories. -/
theorem of_bare {f b : Frame} (h : Registered P v b) (hf : f.bare = b) : Registered P v f := by
  induction h generalizing f with
  | idle hd hp hidle =>
    subst hf
    exact .idle (by simpa using hd) hp (by simpa using hidle)
  | hosting hd hp hset _ ih =>
    subst hf
    refine .hosting (by simpa using hd) hp hset fun g hg => ih g.bare ?_ rfl
    rw [Frame.bare_children, Stack.mem_bare]
    exact ⟨g, hg, rfl⟩

theorem bare {f : Frame} (h : Registered P v f) : Registered P v f.bare := by
  induction h with
  | idle hd hp hidle => exact .idle (by simpa using hd) hp (by simp [hidle])
  | hosting hd hp hset _ ih =>
    refine .hosting (by simpa using hd) hp hset fun g hg => ?_
    rw [Frame.bare_children, Stack.mem_bare] at hg
    obtain ⟨g', hg', rfl⟩ := hg
    exact ih g' hg'

end Registered

/-- A turn that waits keeps a stack that is not empty, and one that completed keeps an
empty one. -/
def Outcome.Fits (o : Outcome) (stack : Stack) : Prop :=
  (o.status = .waiting ∧ stack ≠ []) ∨ (o.status = .completed ∧ stack = [])

namespace Host
variable (h : Host)

theorem view_library {h : Host} (hlibrary : h.dialogs.Library) : h.view.Library := by
  intro set hset
  obtain rfl : set = h.dialogs := List.mem_singleton.mp hset
  exact hlibrary

/-- What the dialogs of a turn leave behind. -/
def Settled (r : TurnResult) (shape : Stack) : Prop :=
  (∀ g ∈ shape, Resolved h.view g) ∧ r.Fits shape

theorem settled_of_left {before shape : Stack} {r : TurnResult}
    (hleft : Left h.view before r shape) : h.Settled r shape := by
  obtain ⟨u, rfl, hframes, hfits⟩ := hleft
  exact ⟨hframes, hfits⟩

theorem runStack_obeys (hlibrary : h.dialogs.Library) {s : Session}
    (hframes : ∀ g ∈ s.turn.shape, Resolved h.view g) (fuel : Nat) (activity : Json) :
    (h.runStack fuel activity).Obeys s h.Settled := by
  have hview := view_library hlibrary
  have hsound := Engine.call_sound fuel
  have hmute := Engine.call_mute fuel
  have goOn (s : Session) (hframes : ∀ g ∈ s.turn.shape, Resolved h.view g) : (do
      let result ← Engine.advance (Engine.call fuel) h.view
      if result.status = .empty then Engine.begin (Engine.call fuel) h.view h.root none
      else return result : Eval TurnResult).Obeys s h.Settled := by
    have hlevel (s : Session) : Stack.level? h.view.level s.turn.shape = some s.turn.shape := rfl
    have hgone := Engine.advance_obeys hsound hview (hlevel s) hframes
    refine Eval.obeys_bind hgone fun r s₁ hs₁ => ?_
    rcases hs₁ with ⟨-, hstatus, hshape⟩ | ⟨-, hleft⟩
    · rw [if_pos hstatus]
      rw [← hshape] at hframes
      exact Eval.obeys_mono (Engine.begin_obeys hsound hview (hlevel s₁) hframes h.root none)
        fun r after hleft => h.settled_of_left hleft
    · have hsettled := h.settled_of_left hleft
      have hstatus : r.status ≠ .empty := by
        rcases hsettled.2 with ⟨hwaiting, -⟩ | ⟨hcompleted, -⟩
        · simp [hwaiting]
        · simp [hcompleted]
      rw [if_neg hstatus]
      exact Eval.obeys_pure hsettled
  unfold runStack
  apply Eval.obeys_turn
  by_cases hdepth : 0 < s.turn.depth 0
  · rw [if_pos hdepth]
    have hemit : (Engine.emit (Engine.call fuel) h.view
        { name := Event.activityReceived, value := some activity, bubble := true } true).Obeys s
        (fun handled shape => handled = false ∧ shape = s.turn.shape) :=
      Eval.obeys_turn (Engine.dispatch_obeys hmute _ (hview.leaf s.turn))
    refine Eval.obeys_bind hemit fun handled s₁ hs₁ => ?_
    obtain ⟨rfl, hshape⟩ := hs₁
    rw [if_neg Bool.false_ne_true]
    exact goOn s₁ (hshape ▸ hframes)
  · rw [if_neg hdepth]
    exact goOn s hframes

/-- Every snapshot that is kept has a stack that resolves. -/
def Keeps (kept : Table Snapshot) : Prop :=
  ∀ c snapshot, kept.find? c = some snapshot →
    ∃ stack, snapshot.stack? = some stack ∧ ∀ f ∈ stack, Resolved h.view f

theorem respond_settled (hlibrary : h.dialogs.Library) {fuel : Nat} {a : Activity}
    {stored : Snapshot} {stack : Stack} (hstack : stored.stack? = some stack)
    (hframes : ∀ f ∈ stack, Resolved h.view f) {answer : Answer}
    (hrespond : h.respond fuel a stored = some answer) :
    (∀ e ∈ answer.journal, e.Tidy) ∧ (∀ e, answer.outcome = .error e → e.Plain) ∧
      ∀ o snapshot, answer.outcome = .ok (o, snapshot) → ∃ next, snapshot.stack? = some next ∧
        (∀ f ∈ next, Resolved h.view f) ∧ o.Fits next := by
  rw [respond, Turn.start_of_stack? hstack] at hrespond
  obtain ⟨⟨outcome, s⟩, hrun, rfl⟩ := Option.map_eq_some_iff.mp hrespond
  have hshape : ∀ g ∈ Stack.bare stack, Resolved h.view g := by
    intro g hg
    obtain ⟨f, hf, rfl⟩ := Stack.mem_bare.mp hg
    exact (hframes f hf).bare
  have hobeys (user conversation : Object) :=
    h.runStack_obeys hlibrary (s := { turn := .opening a h.settings user conversation stack })
      hshape fuel a.toJson
  obtain ⟨⟨entries, hjournal, htidy⟩, hpost⟩ := hobeys _ _ outcome s hrun
  have hentries : s.journal = entries := hjournal
  refine ⟨fun e he => htidy e (hentries ▸ he), ?_, ?_⟩
  · intro e he
    cases outcome with
    | ok r => cases he
    | error e' =>
      cases he
      exact hpost
  · intro o snapshot ho
    cases outcome with
    | error e => cases ho
    | ok r =>
      cases ho
      refine ⟨s.turn.stack, Turn.snapshot_stack? s.turn, fun f hf => ?_, ?_⟩
      · have hresolved := hpost.1 f.bare (Stack.mem_bare.mpr ⟨f, hf, rfl⟩)
        exact hresolved.of_bare rfl
      · rcases hpost.2 with ⟨hwaiting, hne⟩ | ⟨hcompleted, hempty⟩
        · exact .inl ⟨hwaiting, fun hnil => hne (Stack.bare_eq_nil.mpr hnil)⟩
        · exact .inr ⟨hcompleted, Stack.bare_eq_nil.mp hempty⟩

theorem handle_settled (hlibrary : h.dialogs.Library) {fuel : Nat} {a : Activity}
    {kept kept' : Table Snapshot} (hkeeps : h.Keeps kept) {outcome : Except Fault Outcome}
    {journal : List Entry}
    (hhandle : h.handle fuel .memory a kept = some (outcome, journal, kept')) :
    h.Keeps kept' ∧ (∀ e ∈ journal, e.Tidy) ∧
      (∀ e, outcome = .error e → e.Plain ∧ kept' = kept) ∧
      ∀ o, outcome = .ok o → ∃ snapshot stack, kept' = kept.insert a.conversation snapshot ∧
        snapshot.stack? = some stack ∧ o.Fits stack := by
  obtain ⟨stack, hstack, hframes⟩ : ∃ stack,
      ((kept.find? a.conversation).getD {}).stack? = some stack ∧
        ∀ f ∈ stack, Resolved h.view f := by
    cases hfound : kept.find? a.conversation with
    | none => exact ⟨[], rfl, List.forall_mem_nil _⟩
    | some snapshot => exact hkeeps a.conversation snapshot hfound
  simp only [handle, Store.memory_load] at hhandle
  obtain ⟨answer, hrespond, heq⟩ := Option.map_eq_some_iff.mp hhandle
  obtain ⟨htidy, hfails, hsucceeds⟩ := h.respond_settled hlibrary hstack hframes hrespond
  obtain ⟨result, entries⟩ := answer
  cases result with
  | error e =>
    obtain ⟨rfl, rfl, rfl⟩ : .error e = outcome ∧ entries = journal ∧ kept = kept' := by
      simpa using heq
    refine ⟨hkeeps, htidy, ?_, ?_⟩
    · rintro _ ⟨⟩
      exact ⟨hfails e rfl, rfl⟩
    · rintro _ ⟨⟩
  | ok done =>
    obtain ⟨o, snapshot⟩ := done
    obtain ⟨rfl, rfl, rfl⟩ : .ok o = outcome ∧ entries = journal ∧
        kept.insert a.conversation snapshot = kept' := by
      simpa [Except.map] using heq
    obtain ⟨next, hnext, hresolved, hfits⟩ := hsucceeds o snapshot rfl
    refine ⟨fun c found hfound => ?_, htidy, ?_, ?_⟩
    · rw [Table.find?_insert] at hfound
      split at hfound
      · cases hfound
        exact ⟨next, hnext, hresolved⟩
      · exact hkeeps c found hfound
    · rintro _ ⟨⟩
    · rintro _ ⟨⟩
      exact ⟨snapshot, next, rfl, hnext, hfits⟩

theorem handleAll_keeps (hlibrary : h.dialogs.Library) {fuel : Nat} {as : List Activity}
    {kept final : Table Snapshot} {results : List Record} (hkeeps : h.Keeps kept)
    (hall : h.handleAll fuel .memory as kept = some (results, final)) : h.Keeps final := by
  induction as generalizing kept results with
  | nil =>
    obtain ⟨-, rfl⟩ : [] = results ∧ kept = final := by simpa [handleAll] using hall
    exact hkeeps
  | cons a rest ih =>
    rw [handleAll] at hall
    cases hhandle : h.handle fuel .memory a kept with
    | none => simp [hhandle] at hall
    | some answer =>
      obtain ⟨outcome, journal, next⟩ := answer
      simp only [hhandle] at hall
      obtain ⟨⟨others, _⟩, hrest, hresults⟩ := Option.map_eq_some_iff.mp hall
      obtain ⟨-, rfl⟩ := Prod.mk.inj hresults
      exact ih (h.handle_settled hlibrary hkeeps hhandle).1 hrest

/-- Turns of library dialogs stay consistent. After any series of turns begun with
nothing stored, each further turn: does not fail because an id is not registered or a
stack is gone, and when it fails keeps what was kept; keeps stacks in which every id
means a dialog where it runs and only containers host frames; is waiting or completed as
the stack it keeps is not or is empty; and ends no frame that hosts others. -/
theorem handle_consistent (hlibrary : h.dialogs.Library) {fuel : Nat} {earlier : List Activity}
    {results : List Record} {kept : Table Snapshot}
    (hseries : h.handleAll fuel .memory earlier .empty = some (results, kept))
    {a : Activity} {outcome : Except Fault Outcome} {journal : List Entry} {kept' : Table Snapshot}
    (hhandle : h.handle fuel .memory a kept = some (outcome, journal, kept')) :
    (∀ e, outcome = .error e →
      (∀ id operation, e ≠ .unregistered id operation) ∧ e ≠ .detached ∧ kept' = kept) ∧
    (∀ c snapshot, kept'.find? c = some snapshot →
      ∃ stack, snapshot.stack? = some stack ∧ ∀ f ∈ stack, Resolved h.view f) ∧
    (∀ o, outcome = .ok o → ∃ snapshot stack, kept'.find? a.conversation = some snapshot ∧
      snapshot.stack? = some stack ∧
      ((o.status = .waiting ∧ stack ≠ []) ∨ (o.status = .completed ∧ stack = []))) ∧
    ∀ entry ∈ journal, entry.Tidy := by
  have hstart : h.Keeps .empty := by
    intro c snapshot hfound
    simp at hfound
  have hkeeps := h.handleAll_keeps hlibrary hstart hseries
  obtain ⟨hkeeps', htidy, hfails, hsucceeds⟩ := h.handle_settled hlibrary hkeeps hhandle
  refine ⟨fun e he => ?_, hkeeps', fun o ho => ?_, htidy⟩
  · obtain ⟨hplain, hsame⟩ := hfails e he
    refine ⟨fun id operation heq => ?_, fun heq => ?_, hsame⟩
    · rw [heq] at hplain
      exact hplain
    · rw [heq] at hplain
      exact hplain
  · obtain ⟨snapshot, stack, rfl, hstack, hfits⟩ := hsucceeds o ho
    exact ⟨snapshot, stack, by simp, hstack, hfits⟩

end Host

/-! ## Ordering in two steps -/

def Waterfall.sizes : Waterfall where
  id := "sizes"
  steps := [
    fun _ => Program.prompt "size" { prompt := "Which size?" },
    fun input => Program.finish input.result]

def Prompt.size : Prompt := { id := "size", recognize := .text }

def Component.order : Component where
  id := "order"
  initial := "sizes"
  dialogs := (Table.empty.insert "sizes" Waterfall.sizes.dialog).insert "size" Prompt.size.dialog

def Host.orders : Host where
  dialogs := Table.empty.insert "order" Component.order.dialog
  root := "order"

theorem Host.orders_library : Host.orders.dialogs.Library := by
  have hsize : Prompt.size.dialog.Library := .prompt Prompt.size fun _ => .ok _
  have hsizes : Waterfall.sizes.dialog.Library := by
    refine .waterfall Waterfall.sizes rfl rfl fun step hstep input => ?_
    simp only [Waterfall.sizes, List.mem_cons, List.not_mem_nil, or_false] at hstep
    rcases hstep with rfl | rfl
    · exact Program.finishing_prompt _ _
    · exact Program.finishing_finish _
  have horder : Component.order.dialog.Library := by
    refine .component Component.order fun id d hd => ?_
    simp only [Component.order, Table.find?_insert] at hd
    split at hd
    · cases hd
      exact hsize
    · split at hd
      · cases hd
        exact hsizes
      · simp at hd
  intro id d hd
  simp only [Host.orders, Table.find?_insert] at hd
  split at hd
  · cases hd
    exact horder
  · simp at hd

/-- The second of two turns ends an order, over no frame that was still running. -/
theorem Host.handle_consistent_orders : ∃ kept outcome journal kept',
    Host.orders.handle 9 .memory (.message "c" "big") kept = some (outcome, journal, kept') ∧
      (∀ e, outcome = .error e → e ≠ .detached) ∧ ∀ entry ∈ journal, entry.Tidy := by
  have hanswers : ((Host.orders.handleAll 9 .memory [.message "c" "hello"] .empty).bind
      fun r => Host.orders.handle 9 .memory (.message "c" "big") r.2).isSome = true := by
    decide +kernel
  obtain ⟨⟨outcome, journal, kept'⟩, hlast⟩ := Option.isSome_iff_exists.mp hanswers
  obtain ⟨⟨results, kept⟩, hseries, hhandle⟩ := Option.bind_eq_some_iff.mp hlast
  obtain ⟨hfails, -, -, htidy⟩ :=
    Host.orders.handle_consistent Host.orders_library hseries hhandle
  exact ⟨kept, outcome, journal, kept', hhandle, fun e he => (hfails e he).2.1, htidy⟩

end Colloquy
