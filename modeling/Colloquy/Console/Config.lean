import Colloquy.Text.Blank
import Colloquy.Text.Case

/-!
# Configuration of the console

Which conversation the console talks in and how it logs, from variables. A later
variable wins over an earlier one of the same name.
-/
namespace Colloquy.Console

inductive LogFormat where
  | json
  | pretty
  deriving DecidableEq, Repr

def LogFormat.name : LogFormat → String
  | .json => "json"
  | .pretty => "pretty"

structure Config where
  conversation : String := "console"
  logFormat : LogFormat := .pretty
  deriving DecidableEq, Repr

inductive ConfigFault where
  | unknownLogFormat (value : String)
  | blankConversation
  deriving DecidableEq, Repr

def conversationVariable : String := "PARLEY_CONVERSATION_ID"

def logFormatVariable : String := "PARLEY_LOG_FORMAT"

def ConfigFault.message : ConfigFault → String
  | .unknownLogFormat value =>
    "configuration error: " ++ logFormatVariable ++ " must be 'json' or 'pretty', got '"
      ++ value ++ "'"
  | .blankConversation => "configuration error: " ++ conversationVariable ++ " must not be blank"

def LogFormat.parse (text : String) : Except ConfigFault LogFormat :=
  let value := Text.lower (Text.trim text)
  if value = "json" then .ok .json
  else if value = "pretty" then .ok .pretty
  else .error (.unknownLogFormat value)

namespace Config

def read (c : Config) (name value : String) : Except ConfigFault Config :=
  if name = conversationVariable then .ok { c with conversation := value }
  else if name = logFormatVariable then do return { c with logFormat := ← LogFormat.parse value }
  else .ok c

def ofVariables (vars : List (String × String)) : Except ConfigFault Config := do
  let c ← vars.foldlM (fun c (name, value) => c.read name value) {}
  if Text.isBlankText c.conversation then .error .blankConversation else .ok c

end Config
end Colloquy.Console
