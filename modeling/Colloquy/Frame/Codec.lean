import Colloquy.Frame.Basic

/-!
# Stored form of frames

A frame is an object in which absent parts are left out, and a stack the array
of its frames from the bottom up.
-/
namespace Colloquy

namespace Location

def toJson : Location → Json
  | .own n => .ofFields [("stack", .string "local"), ("position", .nat n)]
  | .enclosing n => .ofFields [("stack", .string "parent"), ("position", .nat n)]

def ofJson? (v : Json) : Option Location := do
  let v ← v.record? ["stack", "position"]
  let stack ← (← v.field? "stack").caseName?
  let position ← (← v.field? "position").natural?
  if stack = "local" then some (.own position)
  else if stack = "parent" then some (.enclosing position)
  else none

end Location

namespace Frame

mutual
def toJson : Frame → Json
  | ⟨id, memory, shared, children⟩ =>
    .ofFields ([("id", .string id)]
      ++ Json.optional "state" (memory.map .object)
      ++ Json.optional "inherits" (shared.map Location.toJson)
      ++ match children with
        | [] => []
        | _ :: _ => [("children", .array (itemsOf children []))])

/-- The stored frames of a stack, the lowest first, in front of others. -/
def itemsOf : List Frame → List Json → List Json
  | [], items => items
  | f :: below, items => itemsOf below (toJson f :: items)
end

/-- Reads everything but the hosted stack. -/
def hosting? (children : List Frame) (v : Json) : Option Frame := do
  let v ← v.record? ["id", "state", "inherits", "children"]
  return {
    id := ← (← v.field? "id").string?
    memory := ← v.optional? "state" Json.object?
    shared := ← v.optional? "inherits" Location.ofJson?
    children }

mutual
def ofJson? : Json → Option Frame
  | .object ⟨entries⟩ => do hosting? (← childrenOf? entries) (.object ⟨entries⟩)
  | .array parts => do hosting? (← childrenAt? 3 parts) (.array parts)
  | _ => none

/-- The hosted stack a number of places into an array's parts; a shorter array hosts none. -/
def childrenAt? : Nat → List Json → Option (List Frame)
  | _, [] => some []
  | 0, .array items :: _ => stackOf? items []
  | 0, _ :: _ => none
  | n + 1, _ :: rest => childrenAt? n rest

/-- The hosted stack among an object's entries; without one the stack is empty. -/
def childrenOf? : List (String × Json) → Option (List Frame)
  | [] => some []
  | (key, .array items) :: rest => if key = "children" then stackOf? items [] else childrenOf? rest
  | (key, _) :: rest => if key = "children" then none else childrenOf? rest

/-- Puts stored frames one by one on a stack. -/
def stackOf? : List Json → List Frame → Option (List Frame)
  | [], s => some s
  | v :: rest, s => do stackOf? rest ((← ofJson? v) :: s)
end

end Frame

namespace Stack

def toJson (s : Stack) : Json := .array (Frame.itemsOf s [])

def ofJson? : Json → Option Stack
  | .array items => Frame.stackOf? items []
  | _ => none

end Stack
end Colloquy
