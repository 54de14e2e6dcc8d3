import Colloquy.Host

/-!
# A turn is all or nothing

A turn loads once, and saves once or not at all: only what the dialogs left behind when
they came to their end is ever written. So a turn that fails, at whatever stage, leaves
a store as it was, and one that succeeds changes the entry of its conversation only.
-/
namespace Colloquy

namespace Store
variable {σ : Type}

/-- What is seen of a store stands through a load and through a save that is refused. -/
structure Careful {γ : Type} (store : Store σ) (view : σ → γ) : Prop where
  load (conversation : String) (kept : σ) : view (store.load conversation kept).2 = view kept
  refused {conversation : String} {snapshot : Snapshot} {kept : σ} {e : Fault}
    (h : (store.save conversation snapshot kept).1 = .error e) :
    view (store.save conversation snapshot kept).2 = view kept

/-- A save that succeeds changes the entry it is about and no other. -/
def Writes (store : Store σ) (entries : σ → String → Option Snapshot) : Prop :=
  ∀ conversation snapshot kept, (store.save conversation snapshot kept).1 = .ok () →
    ∀ c, entries (store.save conversation snapshot kept).2 c =
      if c = conversation then some snapshot else entries kept c

theorem memory_careful {γ : Type} (view : Table Snapshot → γ) : memory.Careful view where
  load _ _ := rfl
  refused h := by cases h

theorem memory_writes : memory.Writes Table.find? :=
  fun conversation snapshot kept _ c => Table.find?_insert kept conversation c snapshot

theorem readOnly_careful {γ : Type} (reason : String) (view : Table Snapshot → γ) :
    (readOnly reason).Careful view where
  load _ _ := rfl
  refused _ := rfl

/-- The store, with everything that it is asked written down. -/
def noted (store : Store σ) : Store (σ × Requests) where
  load conversation kept :=
    let (found, after) := store.load conversation kept.1
    (found, after, { kept.2 with loads := kept.2.loads ++ [conversation] })
  save conversation snapshot kept :=
    let (saved, after) := store.save conversation snapshot kept.1
    (saved, after, { kept.2 with saves := kept.2.saves ++ [(conversation, snapshot)] })

@[simp] theorem noted_load (store : Store σ) (conversation : String) (kept : σ)
    (requests : Requests) : store.noted.load conversation (kept, requests) =
      ((store.load conversation kept).1, (store.load conversation kept).2,
        { requests with loads := requests.loads ++ [conversation] }) := rfl

@[simp] theorem noted_save (store : Store σ) (conversation : String) (snapshot : Snapshot)
    (kept : σ) (requests : Requests) : store.noted.save conversation snapshot (kept, requests) =
      ((store.save conversation snapshot kept).1, (store.save conversation snapshot kept).2,
        { requests with saves := requests.saves ++ [(conversation, snapshot)] }) := rfl

end Store

namespace Host

/-- What a turn whose dialogs came to their end reports. -/
def report (h : Host) (r : TurnResult) (final : Turn) : Outcome :=
  { status := r.status, result := r.result, replies := h.stamped final.outbox }

variable {σ : Type} (h : Host) (fuel : Nat) (store : Store σ) (a : Activity) (kept : σ)

/-- The ways in which a turn can go, with its saves: it fails to load, to read what was
loaded, in its dialogs or to save, or its dialogs come to their end and it saves. -/
inductive Handles : Except Fault Outcome → List Entry → σ → List (String × Snapshot) → Prop
  | unloaded {e : Fault} {after : σ} (hload : store.load a.conversation kept = (.error e, after)) :
      Handles (.error e) [] after []
  | unreadable {found : Option Snapshot} {after : σ} {e : Fault}
      (hload : store.load a.conversation kept = (.ok found, after))
      (hstart : Turn.start a (found.getD {}) h.settings = .error e) :
      Handles (.error e) [] after []
  | failed {found : Option Snapshot} {after : σ} {turn : Turn} {e : Fault} {s : Session}
      (hload : store.load a.conversation kept = (.ok found, after))
      (hstart : Turn.start a (found.getD {}) h.settings = .ok turn)
      (hrun : h.runStack fuel a.toJson { turn } = some (.error e, s)) :
      Handles (.error e) s.journal after []
  | refused {found : Option Snapshot} {after : σ} {turn : Turn} {r : TurnResult} {s : Session}
      {e : Fault} (hload : store.load a.conversation kept = (.ok found, after))
      (hstart : Turn.start a (found.getD {}) h.settings = .ok turn)
      (hrun : h.runStack fuel a.toJson { turn } = some (.ok r, s))
      (hsave : (store.save a.conversation s.turn.snapshot after).1 = .error e) :
      Handles (.error e) s.journal (store.save a.conversation s.turn.snapshot after).2
        [(a.conversation, s.turn.snapshot)]
  | saved {found : Option Snapshot} {after : σ} {turn : Turn} {r : TurnResult} {s : Session}
      (hload : store.load a.conversation kept = (.ok found, after))
      (hstart : Turn.start a (found.getD {}) h.settings = .ok turn)
      (hrun : h.runStack fuel a.toJson { turn } = some (.ok r, s))
      (hsave : (store.save a.conversation s.turn.snapshot after).1 = .ok ()) :
      Handles (.ok (h.report r s.turn)) s.journal
        (store.save a.conversation s.turn.snapshot after).2 [(a.conversation, s.turn.snapshot)]

variable {h fuel store a kept} {outcome : Except Fault Outcome} {journal : List Entry} {kept' : σ}

theorem respond_of_unreadable {stored : Snapshot} {e : Fault}
    (hstart : Turn.start a stored h.settings = .error e) :
    h.respond fuel a stored = some { outcome := .error e } := by
  simp only [respond, hstart]

theorem respond_of_start {stored : Snapshot} {turn : Turn}
    (hstart : Turn.start a stored h.settings = .ok turn) :
    h.respond fuel a stored = (h.runStack fuel a.toJson { turn }).map fun (outcome, session) =>
      { journal := session.journal
        outcome := outcome.map fun r => (h.report r session.turn, session.turn.snapshot) } := by
  simp only [respond, hstart]
  rfl

/-- A turn that comes to an answer goes in one of these ways. -/
theorem handle_cases (hhandle : h.handle fuel store a kept = some (outcome, journal, kept')) :
    ∃ saves, h.Handles fuel store a kept outcome journal kept' saves := by
  unfold handle at hhandle
  cases hload : store.load a.conversation kept with
  | mk result after =>
    rw [hload] at hhandle
    cases result with
    | error e =>
      cases hhandle
      exact ⟨[], .unloaded hload⟩
    | ok found =>
      obtain ⟨answer, hrespond, heq⟩ := Option.map_eq_some_iff.mp hhandle
      cases hstart : Turn.start a (found.getD {}) h.settings with
      | error e =>
        rw [respond_of_unreadable hstart] at hrespond
        cases hrespond
        cases heq
        exact ⟨[], .unreadable hload hstart⟩
      | ok turn =>
        rw [respond_of_start hstart] at hrespond
        obtain ⟨⟨result, s⟩, hrun, rfl⟩ := Option.map_eq_some_iff.mp hrespond
        cases result with
        | error e =>
          cases heq
          exact ⟨[], .failed hload hstart hrun⟩
        | ok r =>
          cases heq
          refine ⟨[(a.conversation, s.turn.snapshot)], ?_⟩
          cases hsave : (store.save a.conversation s.turn.snapshot after).1 with
          | error e => exact .refused hload hstart hrun hsave
          | ok u => exact .saved hload hstart hrun hsave

/-- The requests of a turn are one load and its saves. -/
theorem Handles.noted {saves : List (String × Snapshot)}
    (hhandles : h.Handles fuel store a kept outcome journal kept' saves)
    (requests : Store.Requests) :
    h.handle fuel store.noted a (kept, requests) = some (outcome, journal, kept',
      { loads := requests.loads ++ [a.conversation], saves := requests.saves ++ saves }) := by
  cases hhandles with
  | unloaded hload => simp [handle, hload]
  | unreadable hload hstart => simp [handle, hload, respond_of_unreadable hstart]
  | failed hload hstart hrun => simp [handle, hload, respond_of_start hstart, hrun, Except.map]
  | refused hload hstart hrun hsave =>
    simp [handle, hload, respond_of_start hstart, hrun, hsave, Except.map]
  | saved hload hstart hrun hsave =>
    simp [handle, hload, respond_of_start hstart, hrun, hsave, Except.map]

/-- A turn that fails leaves what is seen of a careful store as it was. -/
theorem Handles.unchanged {γ : Type} {e : Fault} {saves : List (String × Snapshot)}
    (hhandles : h.Handles fuel store a kept (.error e) journal kept' saves) {view : σ → γ}
    (hcareful : store.Careful view) : view kept' = view kept := by
  have hloaded := hcareful.load a.conversation kept
  cases hhandles with
  | unloaded hload =>
    rw [hload] at hloaded
    exact hloaded
  | unreadable hload _ =>
    rw [hload] at hloaded
    exact hloaded
  | failed hload _ _ =>
    rw [hload] at hloaded
    exact hloaded
  | refused hload _ _ hsave =>
    rw [hload] at hloaded
    exact (hcareful.refused hsave).trans hloaded

/-- A turn is all or nothing. It loads once. If it fails, then it saved nothing, or what it
saved was refused, and what is seen of a careful store is as it was. If it succeeds, then
it saved once, and that is the snapshot of its final turn under its conversation: no other
entry of a store that writes what it is given has changed. It reports the result of its
dialogs and the replies that they queued, in order, each with the time of the turn. -/
theorem handle_atomic (hhandle : h.handle fuel store a kept = some (outcome, journal, kept')) :
    ∃ saves : List (String × Snapshot),
      (∀ requests : Store.Requests,
        h.handle fuel store.noted a (kept, requests) = some (outcome, journal, kept',
          { loads := requests.loads ++ [a.conversation], saves := requests.saves ++ saves })) ∧
      (∀ e, outcome = .error e →
        (saves = [] ∨ ∃ snapshot loaded, saves = [(a.conversation, snapshot)] ∧
          (store.save a.conversation snapshot loaded).1 = .error e) ∧
        ∀ (γ : Type) (view : σ → γ), store.Careful view → view kept' = view kept) ∧
      (∀ o, outcome = .ok o → ∃ found turn r s,
        (store.load a.conversation kept).1 = .ok found ∧
        Turn.start a (found.getD {}) h.settings = .ok turn ∧
        h.runStack fuel a.toJson { turn } = some (.ok r, s) ∧
        saves = [(a.conversation, s.turn.snapshot)] ∧
        o.status = r.status ∧ o.result = r.result ∧
        o.replies = s.turn.outbox.map (fun reply => { reply with timestamp := some h.now }) ∧
        ∀ entries, store.Careful entries → store.Writes entries → ∀ c, entries kept' c =
          if c = a.conversation then some s.turn.snapshot else entries kept c) := by
  obtain ⟨saves, hhandles⟩ := handle_cases hhandle
  refine ⟨saves, hhandles.noted, ?_, ?_⟩
  · rintro e rfl
    refine ⟨?_, fun γ view hcareful => hhandles.unchanged hcareful⟩
    cases hhandles with
    | unloaded _ => exact .inl rfl
    | unreadable _ _ => exact .inl rfl
    | failed _ _ _ => exact .inl rfl
    | refused _ _ _ hsave => exact .inr ⟨_, _, rfl, hsave⟩
  · rintro o rfl
    cases hhandles with
    | @saved found after turn r s hload hstart hrun hsave =>
      refine ⟨found, turn, r, s, congrArg Prod.fst hload, hstart, hrun, rfl, rfl, rfl, rfl, ?_⟩
      intro entries hcareful hwrites c
      have hloaded := hcareful.load a.conversation kept
      rw [hload] at hloaded
      rw [hwrites _ _ _ hsave c, ← hloaded]

/-! ## A greeting that is kept, and one that is refused -/

/-- A dialog that changes the user's object, replies and waits. -/
def greeting : Host where
  dialogs := Table.empty.insert "greeting" {
    id := "greeting"
    onBegin := fun _ => do
      Program.set "user.greeted" (.bool true)
      Program.sendText "Hello."
      return .waiting }
  root := "greeting"
  now := ⟨1768471200, 0⟩

theorem handle_atomic_greeting :
    (∃ e journal kept', greeting.handle 2 (.readOnly "disk full") (.message "c" "hi") .empty =
      some (.error e, journal, kept') ∧ kept' = .empty) ∧
    ∃ o journal kept' snapshot, greeting.handle 2 .memory (.message "c" "hi") .empty =
      some (.ok o, journal, kept') ∧
      ∀ c, kept'.find? c = if c = "c" then some snapshot else none := by
  have hrefused : (greeting.handle 2 (.readOnly "disk full") (.message "c" "hi") .empty).any
      (fun answer => !answer.1.isOk) = true := by decide +kernel
  have hkept : (greeting.handle 2 .memory (.message "c" "hi") .empty).any
      (fun answer => answer.1.isOk) = true := by decide +kernel
  obtain ⟨⟨outcome, journal, kept'⟩, hhandle, hbad⟩ := (Option.any_eq_true _ _).mp hrefused
  obtain ⟨⟨outcome', journal', kept''⟩, hhandle', hgood⟩ := (Option.any_eq_true _ _).mp hkept
  constructor
  · cases outcome with
    | ok o => cases hbad
    | error e =>
      obtain ⟨saves, -, hfails, -⟩ := handle_atomic hhandle
      exact ⟨e, journal, kept', hhandle, (hfails e rfl).2 _ id (Store.readOnly_careful _ _)⟩
  · cases outcome' with
    | error e => cases hgood
    | ok o =>
      obtain ⟨saves, -, -, hsucceeds⟩ := handle_atomic hhandle'
      obtain ⟨found, turn, r, s, -, -, -, -, -, -, -, hentries⟩ := hsucceeds o rfl
      exact ⟨o, journal', kept'', s.turn.snapshot, hhandle',
        hentries _ (Store.memory_careful _) Store.memory_writes⟩

end Host
end Colloquy
