import Colloquy.Json.Parser

/-!
# Settings

Settings come from variables whose names carry a prefix. The rest of the name,
words between underscores, becomes one key in which every word after the first
starts with a capital. A value that is a boolean or a number in JSON keeps that
type, and every other value is a string.
-/
namespace Colloquy.Settings

def marker : List Char := "PARLEY_SETTING_".toList

/-- What follows the prefix of a name, if it has it. -/
def suffix? : List Char → List Char → Option (List Char)
  | [], name => some name
  | p :: ps, c :: name => if p = c then suffix? ps name else none
  | _ :: _, [] => none

/-- The words between underscores; there are empty ones between two in a row. -/
def words : List Char → List (List Char)
  | [] => [[]]
  | c :: rest =>
    if c = '_' then [] :: words rest
    else match words rest with
      | [] => [[c]]
      | word :: more => (c :: word) :: more

def capitalize : List Char → List Char
  | [] => []
  | c :: rest => c.toUpper :: rest

/-- Joins words in lower case, capitals marking where a word starts. -/
def joined : List (List Char) → List Char
  | [] => []
  | word :: rest => word ++ (rest.map capitalize).flatten

def key (suffix : List Char) : String :=
  let ws := (words suffix).filter fun w => !w.isEmpty
  String.ofList (joined (ws.map fun w => w.map Char.toLower))

def value (raw : String) : Json :=
  match Json.parse? raw with
  | some (.bool b) => .bool b
  | some (.number n) => .number n
  | _ => .string raw

def add (settings : Object) (entry : String × String) : Object :=
  match suffix? marker entry.1.toList with
  | none | some [] => settings
  | some suffix => settings.insert (key suffix) (value entry.2)

/-- The settings among variables, the last of one key winning. -/
def ofVariables (vars : List (String × String)) : Object := vars.foldl add .empty

end Colloquy.Settings
