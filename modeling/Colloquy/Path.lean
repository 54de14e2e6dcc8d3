import Colloquy.Fault
import Colloquy.Json.Basic
import Colloquy.Text.Blank

/-!
# State paths

A path is a scope and the keys below it, written `user.profile.name`. A text
without a scope's name, or with a dollar sign in front, is about the dialog
scope. Paths are applied to the one object their scope stands for.
-/
namespace Colloquy

structure Path where
  text : String
  scope : Scope
  keys : List String
  deriving DecidableEq, Repr

namespace Path

/-- The pieces between dots; there is always at least one. -/
def pieces : List Char → List (List Char)
  | [] => [[]]
  | c :: rest =>
    if c = '.' then [] :: pieces rest
    else match pieces rest with
      | [] => [[c]]
      | piece :: more => (c :: piece) :: more

theorem pieces_ne_nil (cs : List Char) : pieces cs ≠ [] := by
  cases cs with
  | nil => exact List.cons_ne_nil _ _
  | cons c rest =>
    rw [pieces]
    split
    · exact List.cons_ne_nil _ _
    · split <;> exact List.cons_ne_nil _ _

/-- Up to the first dot there is one piece. -/
theorem pieces_word {word : List Char} (hword : '.' ∉ word) (rest : List Char) :
    pieces (word ++ '.' :: rest) = word :: pieces rest := by
  induction word with
  | nil => rfl
  | cons c cs ih =>
    simp only [List.mem_cons, not_or] at hword
    simp only [List.cons_append, pieces, if_neg (Ne.symm hword.1), ih hword.2]

/-- The scope and the pieces of a trimmed text. -/
def split (cs : List Char) : Scope × List (List Char) :=
  match cs with
  | '$' :: rest => (.dialog, pieces rest)
  | _ =>
    match pieces cs with
    | [] => (.dialog, [])
    | head :: rest =>
      match Scope.ofName? (String.ofList head) with
      | some scope => (scope, rest)
      | none => (.dialog, head :: rest)

/-- A text that begins with the name of a scope leads there. -/
theorem split_scope {name : List Char} {scope : Scope} (hdot : '.' ∉ name) (hdollar : '$' ∉ name)
    (hscope : Scope.ofName? (String.ofList name) = some scope) (rest : List Char) :
    split (name ++ '.' :: rest) = (scope, pieces rest) := by
  have hpieces := pieces_word hdot rest
  unfold split
  split
  · next hcs =>
    cases name with
    | nil => cases hcs
    | cons c cs =>
      obtain ⟨rfl, -⟩ := List.cons.inj hcs
      exact absurd List.mem_cons_self hdollar
  · simp only [hpieces, hscope]

def parse (text : String) : Except Fault Path :=
  let cs := Text.trimChars text.toList
  let (scope, parts) := split cs
  if cs.isEmpty ∨ parts.any List.isEmpty then .error (.invalidPath text)
  else .ok { text, scope, keys := parts.map String.ofList }

theorem parse_eq {text : String} {p : Path} (h : (parse text).toOption = some p) :
    parse text = .ok p := by
  cases hparse : parse text with
  | error e => simp [hparse, Except.toOption] at h
  | ok q => simpa [hparse, Except.toOption] using h

/-- Spelled with a dollar sign or the dialog scope's name, and naming a key. -/
def isExplicitDialogProperty (p : Path) : Bool :=
  let cs := Text.trimChars p.text.toList
  p.scope == .dialog && !p.keys.isEmpty
    && (cs.head? == some '$' || (cs.take 7).map Char.toLower == "dialog.".toList)

end Path

/-- The value that keys lead to from a value. -/
def Json.at? : List String → Json → Option Json
  | [], v => some v
  | k :: ks, .object m => (m.find? k).bind (at? ks)
  | _ :: _, _ => none

namespace Object

/-- Sets the value that keys lead to, opening objects where there is nothing yet.
There is no answer without keys or where something other than an object is in the way. -/
def writeAt? : List String → Json → Object → Option Object
  | [], _, _ => none
  | [k], v, m => some (m.insert k v)
  | k :: ks, v, m =>
    match m.find? k with
    | none => (writeAt? ks v .empty).map fun inner => m.insert k (.object inner)
    | some (.object inner) => (writeAt? ks v inner).map fun inner => m.insert k (.object inner)
    | some _ => none

/-- Takes out the value that keys lead to. Without keys there is nothing to take. -/
def removeAt : List String → Object → Option Json × Object
  | [], m => (none, m)
  | [k], m => (m.find? k, m.erase k)
  | k :: ks, m =>
    match m.find? k with
    | some (.object inner) =>
      let (taken, inner) := removeAt ks inner
      (taken, m.insert k (.object inner))
    | _ => (none, m)

end Object

namespace Path

def read (p : Path) (m : Object) : Option Json := Json.at? p.keys (.object m)

def write (p : Path) (value : Json) (m : Object) : Except Fault Object :=
  match Object.writeAt? p.keys value m with
  | some m => .ok m
  | none => .error (.invalidPath p.text)

def remove (p : Path) (m : Object) : Except Fault (Option Json × Object) :=
  if p.keys.isEmpty then .error (.invalidPath p.text) else .ok (Object.removeAt p.keys m)

end Path
end Colloquy
