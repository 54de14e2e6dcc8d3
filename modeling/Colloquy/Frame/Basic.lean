import Colloquy.Json.Basic

/-!
# Frames and stacks

A frame is one running dialog: its id, its memory or the place of the memory it
shares, and the stack it hosts. A stack is a list of frames with the active one
in front; positions count from the bottom, so a position keeps its meaning while
frames above it come and go.
-/
namespace Colloquy

/-- A frame whose memory is shared: in the same stack, or in the enclosing one. -/
inductive Location where
  | own (position : Nat)
  | enclosing (position : Nat)
  deriving DecidableEq, Repr

structure Frame where
  id : String
  memory : Option (Table Json) := none
  shared : Option Location := none
  children : List Frame := []

abbrev Stack := List Frame

namespace Frame

/-- A frame with an empty memory of its own. -/
def owning (id : String) : Frame := { id, memory := some .empty }

def sharing (id : String) (location : Location) : Frame := { id, shared := some location }

end Frame

namespace Stack

def active? (s : Stack) : Option Frame := s.head?

def ids (s : Stack) : List String := s.map Frame.id

/-- The frame at a position counted from the bottom. -/
def at? (s : Stack) (position : Nat) : Option Frame := s.reverse[position]?

/-- Changes the frame at a position counted from the bottom. -/
def modifyAt (s : Stack) (position : Nat) (f : Frame → Frame) : Stack :=
  (s.reverse.modify position f).reverse

/-- Keeps the lowest frames. -/
def truncate (s : Stack) (depth : Nat) : Stack := s.drop (s.length - depth)

/-- The stack a number of levels in, each hosted by the active frame of the one before. -/
def level? : Nat → Stack → Option Stack
  | 0, s => some s
  | _ + 1, [] => none
  | n + 1, f :: _ => level? n f.children

/-- Changes the stack a number of levels in; nothing happens where there is none. -/
def modifyLevel (change : Stack → Stack) : Nat → Stack → Stack
  | 0, s => change s
  | _ + 1, [] => []
  | n + 1, f :: rest => { f with children := modifyLevel change n f.children } :: rest

/-- The stacks from the root to a level, ending early where there are no more. -/
def chain : Nat → Stack → List Stack
  | 0, s => [s]
  | _ + 1, [] => [[]]
  | n + 1, f :: rest => (f :: rest) :: chain n f.children

@[simp] theorem level?_zero (s : Stack) : level? 0 s = some s := rfl

@[simp] theorem level?_succ_nil (n : Nat) : level? (n + 1) [] = none := rfl

@[simp] theorem level?_succ_cons (n : Nat) (f : Frame) (rest : Stack) :
    level? (n + 1) (f :: rest) = level? n f.children := rfl

@[simp] theorem modifyLevel_zero (change : Stack → Stack) (s : Stack) :
    modifyLevel change 0 s = change s := rfl

@[simp] theorem truncate_length (s : Stack) : truncate s s.length = s := by simp [truncate]

/-- A change made at a level is what that level then shows. -/
theorem level?_modifyLevel (change : Stack → Stack) (n : Nat) (s : Stack) :
    level? n (modifyLevel change n s) = (level? n s).map change := by
  induction n generalizing s with
  | zero => rfl
  | succ n ih => cases s with
    | nil => rfl
    | cons f rest => simpa [modifyLevel, level?] using ih f.children

end Stack
end Colloquy
