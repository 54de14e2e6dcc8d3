import Mathlib.Data.List.Induction
import Colloquy.Settings

/-!
# Settings and the variables they come from

A variable whose name carries the prefix sets one key. Of the variables that set a key, the last
one decides its value, which keeps its type if it is a boolean or a number in JSON and is a text
otherwise.
-/
namespace Colloquy.Settings

/-- The key that a variable of this name sets. -/
def key? (name : String) : Option String :=
  match suffix? marker name.toList with
  | none | some [] => none
  | some suffix => some (key suffix)

theorem find?_add (settings : Object) (entry : String × String) (k : String) :
    (add settings entry).find? k =
      if key? entry.1 = some k then some (value entry.2) else settings.find? k := by
  cases hsuffix : suffix? marker entry.1.toList with
  | none => simp [add, key?, hsuffix]
  | some suffix =>
    cases suffix with
    | nil => simp [add, key?, hsuffix]
    | cons c rest => simp [add, key?, hsuffix, eq_comm]

/-- The value of the last variable that sets a key. -/
def last? (k : String) (vars : List (String × String)) : Option String :=
  ((vars.filter fun entry => key? entry.1 = some k).getLast?).map Prod.snd

theorem last?_append (k : String) (vars : List (String × String)) (entry : String × String) :
    last? k (vars ++ [entry]) =
      if key? entry.1 = some k then some entry.2 else last? k vars := by
  by_cases hk : key? entry.1 = some k <;> simp [last?, hk]

/-- Of the variables that set a key, the last one gives it its value. -/
theorem find?_ofVariables (k : String) (vars : List (String × String)) :
    (ofVariables vars).find? k = (last? k vars).map value := by
  induction vars using List.reverseRecOn with
  | nil => rfl
  | append_singleton vars entry ih =>
    have hlast : ofVariables (vars ++ [entry]) = add (ofVariables vars) entry := by
      simp [ofVariables]
    rw [hlast, find?_add, last?_append, ih]
    split <;> rfl

/-- The value is a boolean or a number in JSON. -/
def Retyped (raw : String) : Prop :=
  (∃ b, Json.parse? raw = some (.bool b)) ∨ ∃ n, Json.parse? raw = some (.number n)

theorem value_of_retyped {raw : String} (h : Retyped raw) : (value raw).string? = none := by
  rcases h with ⟨b, hb⟩ | ⟨n, hn⟩
  · rw [value, hb]
    rfl
  · rw [value, hn]
    rfl

theorem value_of_not_retyped {raw : String} (h : ¬ Retyped raw) : value raw = .string raw := by
  unfold value
  split
  · next b hb => exact absurd (.inl ⟨b, hb⟩) h
  · next n hn => exact absurd (.inr ⟨n, hn⟩) h
  · rfl

end Colloquy.Settings
