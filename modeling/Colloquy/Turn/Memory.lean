import Colloquy.Frame.Owner
import Colloquy.Path
import Colloquy.Turn.Basic

/-!
# Scoped state

Reading and changing a turn through paths. The dialog scope is the memory of the
active frame at a level: its own, or the one it shares. A memory is opened where
it is first written.
-/
namespace Colloquy.Turn

def frameAt? (t : Turn) (a : Address) : Option Frame :=
  (t.stackAt? a.level).bind (Stack.at? · a.position)

def modifyFrame (t : Turn) (a : Address) (f : Frame → Frame) : Turn :=
  t.modifyStack a.level (Stack.modifyAt · a.position f)

/-- The frame whose memory a frame at a level shares. -/
def sharedOwner? (t : Turn) (level : Nat) (f : Frame) : Option Address :=
  f.shared.bind (Location.owner? (t.chain level) level)

/-- The memory of the active frame, if there is one. -/
def memory? (t : Turn) (level : Nat) : Option Object := do
  let f ← t.active? level
  match f.memory with
  | some m => some m
  | none => (← t.frameAt? (← t.sharedOwner? level f)).memory

/-- The frame that holds the active frame's memory or would hold it: the active
frame itself unless it shares another's. -/
def holder? (t : Turn) (level : Nat) : Option Address := do
  let f ← t.active? level
  let self : Address := ⟨level, t.depth level - 1⟩
  if f.memory.isSome then self else (t.sharedOwner? level f).getD self

/-- The holder and its memory, opened if need be. -/
def openMemory (t : Turn) (level : Nat) : Except Fault (Address × Object × Turn) :=
  match t.holder? level with
  | none => .error (.invalidArgument .noMemoryHolder)
  | some a =>
    match (t.frameAt? a).bind Frame.memory with
    | some m => .ok (a, m, t)
    | none => .ok (a, .empty, t.modifyFrame a ({ · with memory := some .empty }))

/-- The object a scope stands for at a level. -/
def scoped? (t : Turn) (level : Nat) : Scope → Option Object
  | .settings => some t.settings
  | .user => some t.user
  | .conversation => some t.conversation
  | .turn => some t.scratch
  | .dialog => t.memory? level

/-- Changes the object a scope stands for. A change that fails leaves it alone. -/
def change (t : Turn) (level : Nat) (scope : Scope) (f : Object → Except Fault (α × Object)) :
    Except Fault α × Turn :=
  match scope with
  | .settings => (.error (.readOnly .settings), t)
  | .user => settle (f t.user) t fun m => { t with user := m }
  | .conversation => settle (f t.conversation) t fun m => { t with conversation := m }
  | .turn => settle (f t.scratch) t fun m => { t with scratch := m }
  | .dialog =>
    match t.openMemory level with
    | .error e => (.error e, t)
    | .ok (a, m, t) => settle (f m) t fun m => t.modifyFrame a ({ · with memory := some m })
where
  settle (outcome : Except Fault (α × Object)) (unchanged : Turn) (put : Object → Turn) :
      Except Fault α × Turn :=
    match outcome with
    | .ok (x, m) => (.ok x, put m)
    | .error e => (.error e, unchanged)

def get (t : Turn) (level : Nat) (path : String) : Except Fault (Option Json) := do
  let p ← Path.parse path
  return (t.scoped? level p.scope).bind p.read

theorem get_eq {path : String} {p : Path} (hp : Path.parse path = .ok p) (t : Turn) (level : Nat) :
    t.get level path = .ok ((t.scoped? level p.scope).bind p.read) := by
  rw [get, hp]
  rfl

/-- A setting is the same at all levels. -/
theorem get_setting {path text key : String}
    (hpath : Path.parse path = .ok { text, scope := .settings, keys := [key] }) (t : Turn)
    (level : Nat) : t.get level path = .ok (t.settings.find? key) := by
  rw [get_eq hpath]
  exact congrArg Except.ok (Option.bind_fun_some _)

def set (t : Turn) (level : Nat) (path : String) (value : Json) : Except Fault Unit × Turn :=
  match Path.parse path with
  | .error e => (.error e, t)
  | .ok p => t.change level p.scope fun m => (p.write value m).map ((), ·)

/-- Without an active frame there is nothing to delete from the dialog scope. -/
def delete (t : Turn) (level : Nat) (path : String) : Except Fault (Option Json) × Turn :=
  match Path.parse path with
  | .error e => (.error e, t)
  | .ok p =>
    if p.scope = .dialog ∧ (t.active? level).isNone then (.ok none, t)
    else t.change level p.scope p.remove

end Colloquy.Turn
