import Colloquy.Activity
import Colloquy.Fault
import Colloquy.Frame.Codec
import Colloquy.Snapshot

/-!
# Turns

All that is alive while one activity is handled: the scopes, the stack of running
dialogs and the replies sent so far. Between turns the stack is stored inside the
conversation's object under a key of its own, which dialogs never see.
-/
namespace Colloquy

structure Turn where
  activity : Activity
  settings : Object := .empty
  user : Object := .empty
  conversation : Object := .empty
  scratch : Object := .empty
  stack : Stack := []
  outbox : List Activity := []
  globalTags : List String := []

namespace Turn

/-- The conversation's key under which the stack is stored. -/
def stackKey : String := "dialogStack"

/-- Starts a turn from what is stored. -/
def start (activity : Activity) (stored : Snapshot) (settings : Object) : Except Fault Turn :=
  let opened (stack : Stack) : Turn :=
    { activity, settings, stack
      user := stored.user
      conversation := stored.conversation.erase stackKey
      scratch := Table.empty.insert "activity" activity.toJson }
  match stored.conversation.find? stackKey with
  | none => .ok (opened [])
  | some v =>
    match Stack.ofJson? v with
    | some stack => .ok (opened stack)
    | none => .error .malformed

/-- What is stored at the end of a turn. -/
def snapshot (t : Turn) : Snapshot where
  user := t.user
  conversation :=
    if t.stack.isEmpty then t.conversation.erase stackKey
    else t.conversation.insert stackKey (Stack.toJson t.stack)

/-! ## Replies -/

def send (t : Turn) (a : Activity) : Turn := { t with outbox := t.outbox ++ [a] }

def hasReplied (t : Turn) : Bool := !t.outbox.isEmpty

/-! ## Stacks by level -/

/-- The stack at a level, unless the frame that hosted it is gone. -/
def stackAt? (t : Turn) (level : Nat) : Option Stack := Stack.level? level t.stack

def depth (t : Turn) (level : Nat) : Nat := ((t.stackAt? level).map List.length).getD 0

def active? (t : Turn) (level : Nat) : Option Frame := (t.stackAt? level).bind Stack.active?

def chain (t : Turn) (level : Nat) : List Stack := Stack.chain level t.stack

def modifyStack (t : Turn) (level : Nat) (change : Stack → Stack) : Turn :=
  { t with stack := Stack.modifyLevel change level t.stack }

def push (t : Turn) (level : Nat) (f : Frame) : Turn := t.modifyStack level (f :: ·)

def pop (t : Turn) (level : Nat) : Turn := t.modifyStack level List.tail

def truncate (t : Turn) (level depth : Nat) : Turn := t.modifyStack level (Stack.truncate · depth)

section
variable {t : Turn} {level : Nat} {f : Frame} {u rest : Stack}

theorem active?_of_stackAt? (hu : t.stackAt? level = some (f :: rest)) :
    t.active? level = some f := by
  rw [active?, hu]
  rfl

theorem active?_of_empty (hu : t.stackAt? level = some []) : t.active? level = none := by
  rw [active?, hu]
  rfl

theorem stackAt?_of_active? (hf : t.active? level = some f) :
    ∃ rest, t.stackAt? level = some (f :: rest) := by
  obtain ⟨u, hu, hhead⟩ := Option.bind_eq_some_iff.mp hf
  cases u with
  | nil => cases hhead
  | cons g rest =>
    obtain rfl := Option.some.inj hhead
    exact ⟨rest, hu⟩

theorem depth_of_stackAt? (hu : t.stackAt? level = some u) : t.depth level = u.length := by
  rw [depth, hu]
  rfl

theorem stackAt?_pop (hu : t.stackAt? level = some u) :
    (t.pop level).stackAt? level = some u.tail := by
  have hstack : Stack.level? level t.stack = some u := hu
  simp [stackAt?, pop, modifyStack, Stack.level?_modifyLevel, hstack]

end

/-- Where a command begun now finds the memory it shares: in the frame just below
it, or in the hosting frame when its stack is empty. -/
def sharedLocation? (t : Turn) (level : Nat) : Option Location :=
  match t.depth level with
  | below + 1 => some (.own below)
  | 0 =>
    match level with
    | 0 => none
    | outer + 1 =>
      match t.depth outer with
      | 0 => none
      | host + 1 => some (.enclosing host)

end Turn
end Colloquy
