import Colloquy.Text.Case

/-!
# State scopes

The five places a path can lead to. Settings are for reading only.
-/
namespace Colloquy

inductive Scope where
  | settings
  | user
  | conversation
  | dialog
  | turn
  deriving DecidableEq, Repr

namespace Scope

def all : List Scope := [.settings, .user, .conversation, .dialog, .turn]

def name : Scope → String
  | .settings => "settings"
  | .user => "user"
  | .conversation => "conversation"
  | .dialog => "dialog"
  | .turn => "turn"

def isReadOnly (s : Scope) : Bool := s == .settings

/-- The scope of that name, in any ASCII letter case. -/
def ofName? (text : String) : Option Scope := all.find? (fun s => Text.sameLetters s.name text)

@[simp] theorem mem_all (s : Scope) : s ∈ all := by cases s <;> simp [all]

end Scope
end Colloquy
