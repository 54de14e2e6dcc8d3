import Colloquy.Table

/-!
# JSON values

Numbers are integers or doubles, and the two never coincide: `1` and `1.0`
are different values. Doubles are held by their bits. Objects are tables, so
their keys stay in code point order.
-/
namespace Colloquy

inductive Number where
  | integer (value : Int)
  | double (bits : UInt64)
  deriving DecidableEq, Repr

inductive Json where
  | null
  | bool (value : Bool)
  | number (value : Number)
  | string (value : String)
  | array (items : List Json)
  | object (fields : Table Json)

abbrev Object := Table Json

instance : Inhabited Json := ⟨.null⟩

/-- Doubles compare by value, so both zeros are equal. -/
def Number.same : Number → Number → Bool
  | .integer a, .integer b => a == b
  | .double a, .double b => Float.ofBits a == Float.ofBits b
  | _, _ => false

namespace Json

mutual
/-- Equality of values: same shape, numbers by `Number.same`. -/
def same : Json → Json → Bool
  | .null, .null => true
  | .bool a, .bool b => a == b
  | .number a, .number b => a.same b
  | .string a, .string b => a == b
  | .array a, .array b => sameItems a b
  | .object ⟨a⟩, .object ⟨b⟩ => sameFields a b
  | _, _ => false

def sameItems : List Json → List Json → Bool
  | [], [] => true
  | a :: as, b :: bs => same a b && sameItems as bs
  | _, _ => false

def sameFields : List (String × Json) → List (String × Json) → Bool
  | [], [] => true
  | (j, a) :: as, (k, b) :: bs => j == k && same a b && sameFields as bs
  | _, _ => false
end

instance : BEq Json := ⟨same⟩

def nat (n : Nat) : Json := .number (.integer n)

def strings (texts : List String) : Json := .array (texts.map .string)

/-- An object from its fields; later fields win over earlier ones. -/
def ofFields (fields : List (String × Json)) : Json := .object (Table.ofList fields)

/-- An optional field: nothing at all when the value is absent. -/
def optional (key : String) : Option Json → List (String × Json)
  | none => []
  | some value => [(key, value)]

def orNull : Option Json → Json := (·.getD .null)

def bool? : Json → Option Bool
  | .bool b => some b
  | _ => none

def string? : Json → Option String
  | .string s => some s
  | _ => none

def array? : Json → Option (List Json)
  | .array items => some items
  | _ => none

def object? : Json → Option Object
  | .object fields => some fields
  | _ => none

def integer? : Json → Option Int
  | .number (.integer n) => some n
  | _ => none

/-- A whole number that is not negative. -/
def natural? : Json → Option Nat
  | .number (.integer (.ofNat n)) => some n
  | _ => none

/-- An integer of 64 bits with sign. -/
def signed? (v : Json) : Option Int :=
  v.integer?.filter (fun n => n < 0x8000000000000000)

def strings? (v : Json) : Option (List String) := do (← v.array?).mapM string?

/-- The field of an object; other values have none. -/
def field? (v : Json) (key : String) : Option Json := v.object?.bind (·.find? key)

/-- A field in which `null` is as good as absent. -/
def present? (v : Json) (key : String) : Option Json :=
  match v.field? key with
  | none | some .null => none
  | some value => some value

/-- Decodes an optional field; `none` is a field of the wrong shape. -/
def optional? (v : Json) (key : String) (decode : Json → Option α) : Option (Option α) :=
  match v.present? key with
  | none => some none
  | some value => (decode value).map some

/-- The name of a case that carries nothing: a string, or the one key of an
object whose value is `null`. -/
def caseName? : Json → Option String
  | .string name => some name
  | .object ⟨[(name, .null)]⟩ => some name
  | _ => none

/-- A record by its fields: the object itself, or the array of its parts in the
order of their names, which may be cut short. -/
def record? (names : List String) : Json → Option Json
  | .object fields => some (.object fields)
  | .array parts =>
    if parts.length ≤ names.length then some (ofFields (names.zip parts)) else none
  | _ => none

@[simp] theorem caseName?_string (name : String) : caseName? (.string name) = some name := rfl

@[simp] theorem record?_object (names : List String) (fields : Object) :
    record? names (.object fields) = some (.object fields) := rfl

end Json
end Colloquy
