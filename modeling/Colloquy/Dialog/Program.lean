import Colloquy.Dialog.Result
import Colloquy.Turn.Memory

/-!
# Programs

What a dialog's hook does, as a tree of requests to the engine. A request's answer
may be a fault, and the program decides whether to go on; a program that does not
ask ends with the fault. What was changed before a fault stays changed.
-/
namespace Colloquy

/-- What is known of a registered dialog. -/
structure Description where
  id : String
  kind : Kind
  tags : List String
  hostsDialogs : Bool

/-- What a program sees: the turn, the level it runs at, the number of dialogs
registered there, and the dialog an id means at each level up to its own. -/
structure Sight where
  level : Nat
  turn : Turn
  registered : Nat
  describe : Nat → String → Option Description

namespace Sight

def depth (s : Sight) : Nat := s.turn.depth s.level

def get (s : Sight) (path : String) : Except Fault (Option Json) := s.turn.get s.level path

end Sight

/-- Changes to the turn that run no hook. -/
inductive Edit : Type → Type where
  | set (path : String) (value : Json) : Edit Unit
  | delete (path : String) : Edit (Option Json)
  | openMemory : Edit Object
  | send (activity : Activity) : Edit Unit
  | takeReplies : Edit (List Activity)
  | setGlobalTags (tags : List String) : Edit Unit

def Edit.apply (level : Nat) (t : Turn) : Edit α → Except Fault α × Turn
  | .set path value => t.set level path value
  | .delete path => t.delete level path
  | .openMemory =>
    match t.openMemory level with
    | .ok (_, m, t) => (.ok m, t)
    | .error e => (.error e, t)
  | .send activity => (.ok (), t.send activity)
  | .takeReplies => (.ok t.outbox, { t with outbox := [] })
  | .setGlobalTags tags => (.ok (), { t with globalTags := tags })

/-- Operations on stacks, which run the hooks of dialogs. `next` resumes the dialog
whose hook is running. -/
inductive Call : Type → Type where
  | begin (id : String) (options : Option Json) : Call TurnResult
  | replace (id : String) (options : Option Json) : Call TurnResult
  | advance : Call TurnResult
  | finish (result : Option Json) : Call TurnResult
  | cancelAll (event : String) (value : Option Json) : Call TurnResult
  | clear (reason : Reason) : Call Unit
  | reprompt : Call TurnResult
  | emit (name : String) (value : Option Json) (bubble fromLeaf : Bool) : Call Bool
  | next (result : Option Json) : Call TurnResult

/-- The context a part of a program runs in, seen from its own. -/
inductive Place where
  | child
  | parent
  deriving DecidableEq, Repr

inductive Program : Type → Type 1 where
  | done (outcome : Except Fault α) : Program α
  | look (next : Sight → Program α) : Program α
  | edit (e : Edit β) (next : Except Fault β → Program α) : Program α
  | call (c : Call β) (next : Except Fault β → Program α) : Program α
  | note (content : Json) (next : Program α) : Program α
  | within (place : Place) (body : Program β) (next : Option (Except Fault β) → Program α) :
      Program α

namespace Program

def bind (p : Program α) (f : α → Program β) : Program β :=
  match p with
  | done (.ok x) => f x
  | done (.error e) => done (.error e)
  | look next => look fun s => (next s).bind f
  | edit e next => edit e fun r => (next r).bind f
  | call c next => call c fun r => (next r).bind f
  | note content next => note content (next.bind f)
  | within place body next => within place body fun r => (next r).bind f

instance : Monad Program where
  pure x := done (.ok x)
  bind := bind

/-- Turns a program's fault into its value. -/
def attempt : Program α → Program (Except Fault α)
  | done outcome => done (.ok outcome)
  | look next => look fun s => (next s).attempt
  | edit e next => edit e fun r => (next r).attempt
  | call c next => call c fun r => (next r).attempt
  | note content next => note content next.attempt
  | within place body next => within place body fun r => (next r).attempt

/-- Allows one `next` at this level, or none once it is used up; each further one
is answered with the fault. -/
def limitNext (again : Fault) (used : Bool) : Program α → Program α
  | done outcome => done outcome
  | look next => look fun s => (next s).limitNext again used
  | edit e next => edit e fun r => (next r).limitNext again used
  | call (.next result) next =>
    if used then (next (.error again)).limitNext again true
    else call (.next result) fun r => (next r).limitNext again true
  | call c next => call c fun r => (next r).limitNext again used
  | note content next => note content (next.limitNext again used)
  | within place body next => within place body fun r => (next r).limitNext again used

def fail (fault : Fault) : Program α := done (.error fault)

def ofExcept (outcome : Except Fault α) : Program α := done outcome

def sight : Program Sight := look pure

def run (c : Call α) : Program α := call c done

def change (e : Edit α) : Program α := edit e done

def begin (id : String) (options : Option Json := none) : Program TurnResult :=
  run (.begin id options)

def advance : Program TurnResult := run .advance

def finish (result : Option Json) : Program TurnResult := run (.finish result)

def reprompt : Program TurnResult := run .reprompt

def get (path : String) : Program (Option Json) := look fun s => ofExcept (s.get path)

/-- Reads a value of a given shape. -/
def getAs (decode : Json → Option α) (path : String) : Program (Option α) := do
  match ← get path with
  | none => return none
  | some v => return some (← ofExcept (Fault.orMalformed (decode v)))

def set (path : String) (value : Json) : Program Unit := change (.set path value)

def activity : Program Activity := look fun s => pure s.turn.activity

def send (reply : Activity) : Program Unit := change (.send reply)

/-- Sends a text in the turn's conversation. -/
def sendText (text : String) : Program Unit := do send ((← activity).reply text)

def record (content : Json) : Program Unit := note content (pure ())

/-- Runs a program in the child context, if there is one. -/
def inChild (body : Program α) : Program (Option α) :=
  within .child body fun
    | none => pure none
    | some outcome => do return some (← ofExcept outcome)

@[simp] theorem pure_bind (x : α) (f : α → Program β) :
    (pure x : Program α).bind f = f x := rfl

@[simp] theorem fail_bind (fault : Fault) (f : α → Program β) :
    (fail fault : Program α).bind f = fail fault := rfl

theorem bind_pure (p : Program α) : p.bind pure = p := by
  induction p with
  | done outcome => cases outcome <;> rfl
  | look next ih => simp [bind, ih]
  | edit e next ih => simp [bind, ih]
  | call c next ih => simp [bind, ih]
  | note content next ih => simp [bind, ih]
  | within place body next _ ih => simp [bind, ih]

theorem bind_assoc (p : Program α) (f : α → Program β) (g : β → Program γ) :
    (p.bind f).bind g = p.bind fun x => (f x).bind g := by
  induction p with
  | done outcome => cases outcome <;> rfl
  | look next ih => simp [bind, ih]
  | edit e next ih => simp [bind, ih]
  | call c next ih => simp [bind, ih]
  | note content next ih => simp [bind, ih]
  | within place body next _ ih => simp [bind, ih]

end Program
end Colloquy
