import Colloquy.Turn.Memory

/-!
# What is stored is what comes back

A stack is written into the conversation's object and read from it at the start of
the next turn. Reading undoes writing frame by frame, with absent parts absent again,
so a turn starts with the stack, the user's object and the conversation's object that
the turn before it ended with. The stack's own key is overwritten at the end of a
turn and taken out at the start of the next, so a dialog cannot use it.
-/
namespace Colloquy

namespace Json

@[simp] theorem field?_object (fields : Object) (key : String) :
    (Json.object fields).field? key = fields.find? key := rfl

/-- An optional part is read back if no written value is `null`. -/
theorem optional?_eq_some {v : Json} {key : String} {part : Option α} {encode : α → Json}
    {decode : Json → Option α} (hfield : v.field? key = part.map encode)
    (hdecode : ∀ x, decode (encode x) = some x) (hnull : ∀ x, encode x ≠ .null) :
    v.optional? key decode = some part := by
  cases part with
  | none => simp [optional?, present?, hfield]
  | some x =>
    have hpresent : v.present? key = some (encode x) := by
      have hx := hnull x
      simp only [present?, hfield, Option.map_some]
    simp [optional?, hpresent, hdecode]

end Json

namespace Location

theorem ofJson?_toJson (l : Location) : ofJson? l.toJson = some l := by
  cases l <;>
    simp [toJson, ofJson?, Json.ofFields, Table.ofList, Json.caseName?, Json.nat, Json.natural?]

theorem toJson_ne_null (l : Location) : l.toJson ≠ .null := by
  cases l <;> simp [toJson, Json.ofFields]

end Location

namespace Frame

/-- The hosted stack of a stored frame is the value of one key. -/
def hostedOf? : Option Json → Option (List Frame)
  | none => some []
  | some (.array items) => stackOf? items []
  | some _ => none

theorem childrenOf?_eq (entries : List (String × Json)) :
    childrenOf? entries = hostedOf? (entries.lookup "children") := by
  induction entries with
  | nil => rfl
  | cons entry rest ih =>
    obtain ⟨key, v⟩ := entry
    by_cases hk : key = "children"
    · subst hk
      cases v <;> simp [childrenOf?, hostedOf?]
    · have hb : ("children" == key) = false := by simpa using Ne.symm hk
      cases v <;> simp [childrenOf?, hk, ih, List.lookup_cons, hb]

theorem ofJson?_object (fields : Object) :
    ofJson? (.object fields) =
      (hostedOf? (fields.find? "children")).bind (hosting? · (.object fields)) := by
  obtain ⟨entries⟩ := fields
  simp only [ofJson?, childrenOf?_eq, Table.find?]
  rfl

/-- The object of a frame holds each part that is there under its own key. -/
theorem toJson_eq_object (f : Frame) : ∃ fields : Object, f.toJson = .object fields ∧
    fields.find? "id" = some (.string f.id) ∧
    fields.find? "state" = f.memory.map .object ∧
    fields.find? "inherits" = f.shared.map Location.toJson ∧
    fields.find? "children" =
      if f.children.isEmpty then none else some (.array (itemsOf f.children [])) := by
  obtain ⟨id, memory, shared, children⟩ := f
  cases children <;> refine ⟨_, by rw [toJson, Json.ofFields], ?_⟩ <;>
    cases memory <;> cases shared <;> simp [Json.optional, Table.ofList]

theorem hosting?_object {f : Frame} {fields : Object} (children : List Frame)
    (hid : fields.find? "id" = some (.string f.id))
    (hstate : fields.find? "state" = f.memory.map .object)
    (hinherits : fields.find? "inherits" = f.shared.map Location.toJson) :
    hosting? children (.object fields) = some { f with children } := by
  have hmemory : (Json.object fields).optional? "state" Json.object? = some f.memory :=
    Json.optional?_eq_some hstate (fun _ => rfl) (fun _ hnull => by cases hnull)
  have hshared : (Json.object fields).optional? "inherits" Location.ofJson? = some f.shared :=
    Json.optional?_eq_some hinherits Location.ofJson?_toJson Location.toJson_ne_null
  simp [hosting?, hid, hmemory, hshared, Json.string?]

mutual
theorem ofJson?_toJson : ∀ f : Frame, ofJson? f.toJson = some f
  | ⟨id, memory, shared, children⟩ => by
    obtain ⟨fields, heq, hid, hstate, hinherits, hchildren⟩ :=
      toJson_eq_object ⟨id, memory, shared, children⟩
    have hhosted : hostedOf? (fields.find? "children") = some children := by
      rw [hchildren]
      cases children with
      | nil => rfl
      | cons f below =>
        have hread := stackOf?_itemsOf (f :: below) [] []
        simpa [hostedOf?, stackOf?] using hread
    rw [heq, ofJson?_object, hhosted]
    exact hosting?_object children hid hstate hinherits

/-- Reading the stored frames of a stack puts that stack on what is there. -/
theorem stackOf?_itemsOf : ∀ (s : List Frame) (items : List Json) (onto : List Frame),
    stackOf? (itemsOf s items) onto = stackOf? items (s ++ onto)
  | [], items, onto => rfl
  | f :: below, items, onto => by
    rw [itemsOf, stackOf?_itemsOf below, stackOf?, ofJson?_toJson f]
    rfl
end

end Frame

namespace Stack

theorem ofJson?_toJson (s : Stack) : ofJson? s.toJson = some s := by
  simpa [toJson, ofJson?, Frame.stackOf?] using Frame.stackOf?_itemsOf s [] []

end Stack

/-- The stack kept in a snapshot, unless it cannot be read. -/
def Snapshot.stack? (s : Snapshot) : Option Stack :=
  match s.conversation.find? Turn.stackKey with
  | none => some []
  | some v => Stack.ofJson? v

namespace Turn

/-- A turn as it starts, before anything ran. -/
def opening (a : Activity) (settings user conversation : Object) (stack : Stack) : Turn :=
  { activity := a, settings, user, conversation, stack
    scratch := Table.empty.insert "activity" a.toJson }

/-- A turn starts whenever the stack that was kept can be read. -/
theorem start_of_stack? {stored : Snapshot} {stack : Stack} (h : stored.stack? = some stack)
    (a : Activity) (settings : Object) :
    start a stored settings =
      .ok (opening a settings stored.user (stored.conversation.erase stackKey) stack) := by
  cases hfind : stored.conversation.find? stackKey with
  | none =>
    simp only [Snapshot.stack?, hfind] at h
    cases h
    simp only [start, hfind]
    rfl
  | some v =>
    simp only [Snapshot.stack?, hfind] at h
    simp only [start, hfind, h]
    rfl

@[simp] theorem snapshot_user (t : Turn) : t.snapshot.user = t.user := rfl

@[simp] theorem snapshot_stack? (t : Turn) : t.snapshot.stack? = some t.stack := by
  by_cases h : t.stack.isEmpty
  · have hnil : t.stack = [] := List.isEmpty_iff.mp h
    simp [Snapshot.stack?, snapshot, hnil]
  · simp [Snapshot.stack?, snapshot, h, Stack.ofJson?_toJson]

@[simp] theorem snapshot_conversation_erase (t : Turn) :
    t.snapshot.conversation.erase stackKey = t.conversation.erase stackKey := by
  by_cases h : t.stack.isEmpty
  · simp [snapshot, h]
  · simp [snapshot, h, Table.erase_insert]

theorem snapshot_contains_stackKey (t : Turn) :
    t.snapshot.conversation.contains stackKey = true ↔ t.stack ≠ [] := by
  by_cases h : t.stack = []
  · simp [snapshot, h]
  · simp [snapshot, h]

/-- Changes of a scope other than the dialog's leave the stack alone. -/
theorem change_stack (t : Turn) (level : Nat) {scope : Scope} (hscope : scope ≠ .dialog)
    (f : Object → Except Fault (α × Object)) : (t.change level scope f).2.stack = t.stack := by
  cases scope with
  | dialog => exact absurd rfl hscope
  | settings => rfl
  | user | conversation | turn =>
    simp only [change, change.settle]
    split <;> rfl

/-- A turn starts as the one before it ended: with its stack frame for frame, the
user's object and the conversation's object without the stack's key. Nothing else is
carried over, and no change of the conversation's object reaches the stack. The key
is stored exactly when something is running. -/
theorem start_snapshot (t : Turn) (a : Activity) (settings : Object) :
    start a t.snapshot settings = .ok
        { activity := a
          settings
          user := t.user
          conversation := t.conversation.erase stackKey
          scratch := Table.empty.insert "activity" a.toJson
          stack := t.stack
          outbox := []
          globalTags := [] } ∧
      (t.snapshot.conversation.contains stackKey = true ↔ t.stack ≠ []) ∧
      ∀ (α : Type) (level : Nat) (f : Object → Except Fault (α × Object)),
        ∃ next, start a (t.change level .conversation f).2.snapshot settings = .ok next ∧
          next.stack = t.stack := by
  have hstart (t : Turn) := start_of_stack? (snapshot_stack? t) a settings
  refine ⟨?_, t.snapshot_contains_stackKey, fun α level f => ?_⟩
  · rw [hstart t, snapshot_conversation_erase]
    rfl
  · have hscope : Scope.conversation ≠ .dialog := by decide
    exact ⟨_, hstart _, change_stack t level hscope f⟩

end Turn
end Colloquy
