import Colloquy.View

/-!
# The engine

Stack operations and the running of hooks. An operation is given the way to call a
hook, and running ties the knot: each call of a hook spends one unit of fuel, which
also bounds the loops that pop frame after frame. Without fuel there is no answer.
Every call is entered in the journal. A fault leaves what was changed before it.
-/
namespace Colloquy

/-- A hook that was called: on which dialog, at which level, and in which turn. -/
structure HookCall where
  dialog : String
  traced : Bool
  level : Nat
  turn : Turn
  hook : Hook

def HookCall.depth (c : HookCall) : Nat := c.turn.depth c.level

/-- An entry of the journal: the call of a hook with its answer and with what was
entered while it ran, or a note. -/
inductive Entry where
  | called (call : HookCall) (answer : Except Fault call.hook.Reply) (during : List Entry)
  | noted (content : Json)

structure Session where
  turn : Turn
  journal : List Entry := []

abbrev Eval := ExceptT Fault (StateT Session Option)

namespace Eval

/-- There is no answer for want of fuel. -/
def exhausted : Eval α := fun _ => none

def turn : Eval Turn := fun s => some (.ok s.turn, s)

def modifyTurn (f : Turn → Turn) : Eval Unit := fun s =>
  some (.ok (), { s with turn := f s.turn })

/-- A change of the turn that may fail. -/
def onTurn (f : Turn → Except Fault α × Turn) : Eval α := fun s =>
  let (outcome, turn) := f s.turn
  some (outcome, { s with turn })

def log (entry : Entry) : Eval Unit := fun s =>
  some (.ok (), { s with journal := s.journal ++ [entry] })

def ofExcept (outcome : Except Fault α) : Eval α := fun s => some (outcome, s)

/-- Runs an evaluation on a journal of its own, which becomes part of one entry. -/
def entered (entry : Except Fault α → List Entry → Entry) (x : Eval α) : Eval α := fun s =>
  (x { s with journal := [] }).map fun (outcome, after) =>
    (outcome, { after with journal := s.journal ++ [entry outcome after.journal] })

/-- The outcome of an evaluation as a value. -/
def attempt (x : Eval α) : Eval (Except Fault α) := fun s =>
  (x s).map fun (outcome, s) => (.ok outcome, s)

end Eval

/-- How a hook of a dialog is called. -/
abbrev Caller := View → Dialog → (hook : Hook) → Eval hook.Reply

namespace Engine

/-! ## Beginning -/

def lookUp (v : View) (id : String) : Except Fault Dialog :=
  if id.isEmpty then .error .emptyDialogId
  else match v.find? id with
    | none => .error (.dialogNotFound id)
    | some d => .ok d

/-- The values that input bindings copy, with their targets. Absent sources are skipped. -/
def readInputs (t : Turn) (level : Nat) : List InputBinding → Except Fault (List (String × Json))
  | [] => .ok []
  | b :: rest => do
    if !(← Path.parse b.target).isExplicitDialogProperty then
      throw (.invalidArgument (.bindingTarget b.target))
    let value ← t.get level b.source
    let seeds ← readInputs t level rest
    return match value with
      | none => seeds
      | some v => (b.target, v) :: seeds

/-- Where a dialog finds the options it was begun with. A command keeps them apart
from the options of the dialog whose memory it shares. -/
def optionsPath (d : Dialog) : String :=
  if d.kind = .command then "dialog.step.options" else "dialog.options"

/-- The values written into a new frame: inputs in order, then the options. -/
def seeds (d : Dialog) (inputs : List (String × Json)) (options : Option Json) :
    List (String × Json) :=
  inputs ++ Json.optional (optionsPath d) options

def writeSeeds (level : Nat) : List (String × Json) → Eval Unit
  | [] => pure ()
  | (path, value) :: rest => do
    Eval.onTurn (·.set level path value)
    writeSeeds level rest

def newFrame (d : Dialog) (id : String) (t : Turn) (level : Nat) : Frame :=
  match if d.kind = .command then t.sharedLocation? level else none with
  | some location => .sharing id location
  | none => .owning id

def pushFrame (level : Nat) (frame : Turn → Frame) : Eval Unit :=
  Eval.onTurn fun t =>
    match t.stackAt? level with
    | none => (.error .detached, t)
    | some _ => (.ok (), t.push level (frame t))

def pushAndBegin (caller : Caller) (v : View) (d : Dialog) (id : String)
    (inputs : List (String × Json)) (options : Option Json) : Eval TurnResult := do
  let depth := (← Eval.turn).depth v.level
  pushFrame v.level fun t => newFrame d id t v.level
  let outcome ← Eval.attempt do
    writeSeeds v.level (seeds d inputs options)
    caller v d (.begin options)
  match outcome with
  | .ok result => return result
  | .error e =>
    Eval.modifyTurn (·.truncate v.level depth)
    throw e

/-- Pushes a frame for a dialog and begins it. When that fails, the frames above the
old depth are gone again. -/
def begin (caller : Caller) (v : View) (id : String) (options : Option Json) :
    Eval TurnResult :=
  match lookUp v id with
  | .error e => throw e
  | .ok d => do
    let inputs ← Eval.ofExcept (readInputs (← Eval.turn) v.level d.inputs)
    pushAndBegin caller v d id inputs options

/-- Takes the active frame off without notice. -/
def popFrame (level : Nat) : Eval (Option Frame) :=
  Eval.onTurn fun t =>
    match t.stackAt? level with
    | none => (.error .detached, t)
    | some s => (.ok s.active?, t.pop level)

/-- Puts a frame back if the stack is as deep as it was without it. -/
def restore (level depth : Nat) (f : Frame) (t : Turn) : Turn :=
  let t := t.truncate level depth
  match t.stackAt? level with
  | some s => if s.length = depth then t.push level f else t
  | none => t

/-- Begins a dialog in the place of the active one. When that fails, the replaced
frame is put back. -/
def replace (caller : Caller) (v : View) (id : String) (options : Option Json) :
    Eval TurnResult :=
  match lookUp v id with
  | .error e => throw e
  | .ok d => do
    let inputs ← Eval.ofExcept (readInputs (← Eval.turn) v.level d.inputs)
    Eval.onTurn (·.set v.level "turn.repeatDialogId" (.string id))
    let replaced ← popFrame v.level
    let remaining := (← Eval.turn).depth v.level
    match ← Eval.attempt (pushAndBegin caller v d id inputs options) with
    | .ok result => return result
    | .error e =>
      if let some f := replaced then Eval.modifyTurn (restore v.level remaining f)
      throw e

/-! ## Going on -/

/-- The active frame's dialog, for an operation that cannot do without it. -/
def registered (v : View) (f : Frame) (operation : Operation) : Except Fault Dialog :=
  match v.find? f.id with
  | none => .error (.unregistered f.id operation)
  | some d => .ok d

def advance (caller : Caller) (v : View) : Eval TurnResult := do
  match (← Eval.turn).active? v.level with
  | none => return .empty
  | some f =>
    match registered v f .continuing with
    | .error e => throw e
    | .ok d => caller v d .advance

/-! ## Ending -/

/-- Writes a result where the ended dialog's output binding says. The dialog scope
takes it only if another frame is left. -/
def writeOutput (v : View) (d : Dialog) (result : Option Json) : Eval Unit := do
  match d.output, result with
  | some binding, some value =>
    let p ← Eval.ofExcept (Path.parse binding)
    if p.scope ≠ .dialog ∨ ((← Eval.turn).active? v.level).isSome then
      Eval.onTurn (·.set v.level binding value)
  | _, _ => return ()

/-- Tells the active dialog that it ends, pops its frame and writes its output. -/
def endActive (caller : Caller) (v : View) (reason : Reason) (result : Option Json) :
    Eval Unit := do
  match (← Eval.turn).active? v.level with
  | none => return ()
  | some f =>
    match v.find? f.id with
    | none =>
      let _ ← popFrame v.level
    | some d => do
      caller v d (.close reason)
      let _ ← popFrame v.level
      writeOutput v d result

/-- Ends the active dialog and resumes the one below it with the result. -/
def finish (caller : Caller) (v : View) (result : Option Json) : Eval TurnResult := do
  if (← Eval.turn).depth v.level = 0 then return .empty
  endActive caller v .ended result
  match (← Eval.turn).active? v.level with
  | none => return .completed result
  | some f =>
    match registered v f .resuming with
    | .error e => throw e
    | .ok d => caller v d (.resume .ended result)

/-- Ends every frame of the view's own stack. -/
def clear (caller : Caller) (v : View) (reason : Reason) : Nat → Eval Unit
  | 0 => Eval.exhausted
  | fuel + 1 => do
    if (← Eval.turn).depth v.level = 0 then return ()
    endActive caller v reason none
    clear caller v reason fuel

/-! ## Events -/

/-- Offers an event to the active dialog of a view, with what is tried further out
between its two chances. -/
def offer (caller : Caller) (event : Event) (v : View) (outward : Eval Bool) : Eval Bool := do
  match (← Eval.turn).active? v.level with
  | none => return false
  | some f =>
    match v.find? f.id with
    | none => return false
    | some d =>
      if ← caller v d (.before event) then return true
      if ← outward then return true
      caller v d (.after event)

/-- Offers an event in a context. One that bubbles goes on to the enclosing contexts
until a dialog handles it. -/
def dispatch (caller : Caller) (event : Event) : DialogSet → List DialogSet → Eval Bool
  | own, [] => offer caller event { own } (pure false)
  | own, next :: outer =>
    offer caller event { own, outer := next :: outer }
      (if event.bubble then dispatch caller event next outer else pure false)

def emit (caller : Caller) (v : View) (event : Event) (fromLeaf : Bool) : Eval Bool := do
  let turn ← Eval.turn
  let start := if fromLeaf then v.leaf turn else v
  dispatch caller event start.own start.outer

/-! ## Cancelling -/

/-- Ends frame after frame from a view outward. But for the first, each is offered
the event before it goes, and one that handles it stays. -/
def cancelOutward (caller : Caller) (event : Event) (v : View) (offer : Bool) : Nat → Eval Unit
  | 0 => Eval.exhausted
  | fuel + 1 => do
    if (← Eval.turn).depth v.level = 0 then
      match v.parent? with
      | none => return ()
      | some p => cancelOutward caller event p true fuel
    else
      if ← if offer then emit caller v event false else pure false then return ()
      endActive caller v .cancelled none
      cancelOutward caller event v true fuel

def cancelAll (caller : Caller) (v : View) (name : String) (value : Option Json) (fuel : Nat) :
    Eval TurnResult := do
  if ((← Eval.turn).chain v.level).all List.isEmpty then return .empty
  cancelOutward caller { name, value } v false fuel
  return .cancelled

/-! ## Asking again -/

def reprompt (caller : Caller) (v : View) : Eval TurnResult := do
  if ← emit caller v { name := Event.repromptDialog } false then return .waiting
  match (← Eval.turn).active? v.level with
  | none => return .empty
  | some f =>
    match registered v f .reprompting with
    | .error e => throw e
    | .ok d =>
      caller v d .reprompt
      return .waiting

/-! ## Programs -/

/-- Performs a stack operation for a hook of the dialog `self`. -/
def perform (caller : Caller) (fuel : Nat) (self : Dialog) (v : View) : Call α → Eval α
  | .begin id options => begin caller v id options
  | .replace id options => replace caller v id options
  | .advance => advance caller v
  | .finish result => finish caller v result
  | .cancelAll event value => cancelAll caller v event value fuel
  | .clear reason => clear caller v reason fuel
  | .reprompt => reprompt caller v
  | .emit name value bubble fromLeaf => emit caller v { name, value, bubble } fromLeaf
  | .next result => caller v self (.resume .advanced result)

def interpret (caller : Caller) (fuel : Nat) (self : Dialog) (v : View) :
    Program α → Eval α
  | .done outcome => Eval.ofExcept outcome
  | .look next => do interpret caller fuel self v (next (v.sight (← Eval.turn)))
  | .edit e next => do
    interpret caller fuel self v (next (← Eval.attempt (Eval.onTurn (e.apply v.level))))
  | .call c next => do
    interpret caller fuel self v (next (← Eval.attempt (perform caller fuel self v c)))
  | .note content next => do
    Eval.log (.noted content)
    interpret caller fuel self v next
  | .within place body next => do
    match v.at? (← Eval.turn) place with
    | none => interpret caller fuel self v (next none)
    | some inner =>
      interpret caller fuel self v
        (next (some (← Eval.attempt (interpret caller fuel self inner body))))

/-- Calls a hook: runs its program and enters the call in the journal. -/
def call : Nat → Caller
  | 0, _, _, _ => Eval.exhausted
  | fuel + 1, v, d, hook => do
    let turn ← Eval.turn
    Eval.entered (.called { dialog := d.id, traced := d.traced, level := v.level, turn, hook })
      (interpret (call fuel) fuel d v (d.program hook))

/-- Stands in for the dialog whose hook is running where none is. -/
def bystander : Dialog := { id := "", onBegin := fun _ => return .waiting }

/-- Runs a program from outside any hook. -/
def evaluate (fuel : Nat) (v : View) (p : Program α) : Eval α :=
  interpret (call fuel) fuel bystander v p

end Engine
end Colloquy
