import Colloquy.Frame.Basic

/-!
# Whose memory is shared

A shared location leads to the nearest frame that owns a memory: the frame it
names, the frames below that one, then the enclosing stacks from their active
frames down. Where no frame owns one, the named frame is the place to open it.
-/
namespace Colloquy

/-- A frame in a chain of stacks: the stack's level and a position from its bottom. -/
structure Address where
  level : Nat
  position : Nat
  deriving DecidableEq, Repr

namespace Stack

/-- The frame at a position and those below it. -/
def downFrom (s : Stack) (position : Nat) : Stack := s.drop (s.length - (position + 1))

/-- The position of the first frame from the top that owns a memory. -/
def owner? : Stack → Option Nat
  | [] => none
  | f :: below => if f.memory.isSome then some below.length else owner? below

/-- The first owner among stacks listed from the inside out. An empty enclosing
stack ends the search. -/
def ownerOutward? : List Stack → Option Address
  | [] => none
  | s :: outer =>
    match owner? s with
    | some position => some ⟨outer.length, position⟩
    | none =>
      match outer with
      | [] | [] :: _ => none
      | _ => ownerOutward? outer

end Stack

namespace Location

/-- The frame a location names, seen from a level. -/
def target? (level : Nat) : Location → Option Address
  | .own position => some ⟨level, position⟩
  | .enclosing position =>
    match level with
    | 0 => none
    | outer + 1 => some ⟨outer, position⟩

/-- The frame whose memory is shared through a location, or `none` when the
location names no frame of the chain, which is listed from the root. -/
def owner? (chain : List Stack) (level : Nat) (location : Location) : Option Address := do
  let target ← location.target? level
  let stack ← chain[target.level]?
  if target.position < stack.length then
    let outward := stack.downFrom target.position :: (chain.take target.level).reverse
    some ((Stack.ownerOutward? outward).getD target)
  else none

end Location
end Colloquy
