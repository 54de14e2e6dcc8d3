import Colloquy.Console.Demo
import Colloquy.Proofs.Engine.Answers
import Colloquy.Proofs.Nesting.Packing
import Colloquy.Proofs.Persistence

/-!
# The frames of the demo conversation

The root dialog hosts the profile and, above it, the prompt that is asked. What a hook
reads and writes there is the memory of the frame on top, or an object of the user's.
-/
namespace Colloquy

/-- Options are read as they were written. -/
theorem PromptOptions.ofJson?_toJson (o : PromptOptions) : ofJson? o.toJson = some o := by
  obtain ⟨prompt, retry⟩ := o
  have hfield : (toJson ⟨prompt, retry⟩).field? "retryPrompt" = retry.map .string := by
    cases retry <;> simp [toJson, Json.ofFields, Table.ofList, Json.optional]
  have hretry : (toJson ⟨prompt, retry⟩).optional? "retryPrompt" Json.string? = some retry :=
    Json.optional?_eq_some hfield (fun _ => rfl) (fun _ hnull => by cases hnull)
  have hprompt : (toJson ⟨prompt, retry⟩).field? "prompt" = some (.string prompt) := by
    cases retry <;> simp [toJson, Json.ofFields, Table.ofList, Json.optional]
  have hobject : (toJson ⟨prompt, retry⟩).record? ["prompt", "retryPrompt"] =
      some (toJson ⟨prompt, retry⟩) := rfl
  simp [ofJson?, hobject, hretry, hprompt, Json.string?]

namespace Console.Demo

/-- The context of the root dialog, and the one inside it. -/
abbrev outside : View := { own := dialogs }

abbrev inside : View := outside.enter Demo.inner

/-- A frame that owns its memory and hosts nothing. -/
def card (id : String) (m : Object) : Frame := { id, memory := some m }

/-- The turn in which the root dialog hosts a stack. -/
def hosting (t : Turn) (u : Stack) : Turn :=
  { t with stack := [{ Frame.owning rootId with children := u }] }

variable {t : Turn} {u rest : Stack} {id path text key : String} {keys : List String}
  {m m' : Object} {value : Json}

@[simp] theorem hosting_activity : (hosting t u).activity = t.activity := rfl

theorem stackAt?_hosting (t : Turn) (u : Stack) :
    (hosting t u).stackAt? inside.level = some u := rfl

theorem child?_hosting (t : Turn) (u : Stack) :
    outside.child? (hosting t u) = some inside := rfl

/-! ## Reading and writing -/

theorem get_card (hpath : Path.parse path = .ok { text, scope := .dialog, keys }) :
    (hosting t (card id m :: rest)).get inside.level path = .ok (Json.at? keys (.object m)) := by
  have hmemory : (hosting t (card id m :: rest)).memory? inside.level = some m := rfl
  simp only [Turn.get, hpath]
  show Except.ok (((hosting t (card id m :: rest)).memory? inside.level).bind _) = _
  rw [hmemory]
  rfl

theorem set_card (hpath : Path.parse path = .ok { text, scope := .dialog, keys })
    (hwrite : Object.writeAt? keys value m = some m') :
    (hosting t (card id m :: rest)).set inside.level path value =
      (.ok (), hosting t (card id m' :: rest)) := by
  have hopen := Turn.openMemory_of_owned (stackAt?_hosting t (card id m :: rest)) rfl
  have hframes : Stack.modifyAt (card id m :: rest) rest.length
      ({ · with memory := some m' }) = card id m' :: rest := by
    rw [Stack.modifyAt_cons]
    simp [card]
  have hchange : ((Path.mk text .dialog keys).write value m).map ((), ·) = .ok ((), m') := by
    simp only [Path.write, hwrite]
    rfl
  simp only [Turn.set, hpath, Turn.change, hopen, hchange, Turn.change.settle]
  exact congrArg (fun w => (Except.ok (), hosting t w)) hframes

theorem set_user (hpath : Path.parse path = .ok { text, scope := .user, keys := [key] }) :
    (hosting t u).set inside.level path value =
      (.ok (), hosting { t with user := t.user.insert key value } u) := by
  simp only [Turn.set, hpath]
  rfl

end Console.Demo
end Colloquy
