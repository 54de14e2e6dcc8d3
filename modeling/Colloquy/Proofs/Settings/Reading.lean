import Mathlib
import Colloquy.Proofs.Paths.Grammar
import Colloquy.Proofs.Settings.Variables
import Colloquy.Turn.Memory

/-!
# Reading settings

The key of a setting has the letters and digits behind the prefix in their order, in lower case
or as capitals, and none of the underscores. So it is empty exactly if there is nothing but
underscores, and every other key can stand behind the scope's name in a path. A variable whose
key no other variable sets is then read under it with its value. Under the empty key a value is
held as well, but no path has an empty key.
-/
namespace Colloquy

namespace Settings
variable {vars : List (String × String)} {name raw k : String} {suffix : List Char} {c d : Char}

/-! ## The letters of a key -/

theorem flatten_words (cs : List Char) : (words cs).flatten = cs.filter (· ≠ '_') := by
  induction cs with
  | nil => rfl
  | cons c rest ih =>
    by_cases hc : c = '_'
    · simpa [words, hc] using ih
    · rw [List.filter_cons_of_pos (by simpa using hc), ← ih, words, if_neg hc]
      cases words rest <;> rfl

theorem map_toLower_capitalize (word : List Char) :
    (capitalize word).map Char.toLower = word.map Char.toLower := by
  cases word with
  | nil => rfl
  | cons c rest => rw [capitalize, List.map_cons, List.map_cons, Char.toLower_toUpper_eq_toLower]

theorem map_toLower_joined (ws : List (List Char)) :
    (joined ws).map Char.toLower = ws.flatten.map Char.toLower := by
  cases ws with
  | nil => rfl
  | cons word rest =>
    have hrest : (rest.map capitalize).map (List.map Char.toLower) =
        rest.map (List.map Char.toLower) := by
      simp [map_toLower_capitalize]
    rw [joined, List.flatten_cons, List.map_append, List.map_append, List.map_flatten, hrest,
      List.map_flatten]

/-- Up to its case, a key spells what it was made of without the underscores. -/
theorem map_toLower_key (suffix : List Char) :
    (key suffix).toList.map Char.toLower = (suffix.filter (· ≠ '_')).map Char.toLower := by
  rw [key, String.toList_ofList, map_toLower_joined, ← List.map_flatten,
    List.flatten_filter_not_isEmpty, flatten_words, List.map_map]
  simp [Function.comp_def]

theorem key_eq_empty_iff (suffix : List Char) : key suffix = "" ↔ ∀ c ∈ suffix, c = '_' := by
  rw [← String.toList_eq_nil_iff, ← List.map_eq_nil_iff, map_toLower_key]
  simp

theorem isAlphanum_toLower (c : Char) : c.toLower.isAlphanum = c.isAlphanum := by
  by_cases hupper : c.isUpper
  · simp [Char.isAlphanum, Char.isAlpha, hupper]
  · rw [Char.toLower_eq_of_not_isUpper hupper]

/-- Of letters, digits and underscores a key keeps the letters and the digits. -/
theorem isAlphanum_of_mem_key (hchars : ∀ c ∈ suffix, c.isAlphanum ∨ c = '_')
    (h : c ∈ (key suffix).toList) : c.isAlphanum := by
  have hlower : c.toLower ∈ (suffix.filter (· ≠ '_')).map Char.toLower :=
    map_toLower_key suffix ▸ List.mem_map_of_mem h
  obtain ⟨d, hd, hcase⟩ := List.mem_map.mp hlower
  obtain ⟨hmem, hne⟩ := List.mem_filter.mp hd
  rw [← isAlphanum_toLower, ← hcase, isAlphanum_toLower]
  exact (hchars d hmem).resolve_right (of_decide_eq_true hne)

end Settings

/-! ## Keys as paths -/

theorem Text.isBlank_of_isAlphanum {c : Char} (h : c.isAlphanum) : isBlank c = false := by
  have hnumber : ((65 ≤ c.toNat ∧ c.toNat ≤ 90) ∨ (97 ≤ c.toNat ∧ c.toNat ≤ 122)) ∨
      (48 ≤ c.toNat ∧ c.toNat ≤ 57) := by
    simpa [Char.isAlphanum, Char.isAlpha, Char.isUpper, Char.isLower, Char.isDigit,
      UInt32.le_iff_toNat_le] using h
  simp only [isBlank, Bool.or_eq_false_iff, Bool.and_eq_false_iff, decide_eq_false_iff_not,
    beq_eq_false_iff_ne]
  omega

/-- A word of letters and digits is one key below a scope. -/
theorem Path.parse_word (s : Scope) {word : String} (hne : word ≠ "")
    (hword : ∀ c ∈ word.toList, c.isAlphanum) :
    parse (s.name ++ "." ++ word) =
      .ok { text := s.name ++ "." ++ word, scope := s, keys := [word] } := by
  have hchars : word.toList ≠ [] := by simpa using hne
  have htext : (s.name ++ "." ++ word).toList = s.name.toList ++ '.' :: word.toList := by
    simp
  have htrim : Text.trimChars word.toList = word.toList :=
    Text.trimChars_of_ends (fun c hc => Text.isBlank_of_isAlphanum (hword c (List.mem_of_head? hc)))
      fun c hc => Text.isBlank_of_isAlphanum (hword c (List.mem_of_getLast? hc))
  have htrimmed : word.toList <:+ Text.trimChars word.toList := by simp [htrim]
  have hcs : Text.trimChars (s.name ++ "." ++ word).toList =
      s.name.toList ++ '.' :: word.toList := by
    rw [htext, trimChars_name_append s hchars htrimmed]
  have hparts : parts (some word.toList) = [word.toList] :=
    splitOn_of_not_mem fun hdot => absurd (hword '.' hdot) (by decide)
  have hspelled := Spelled.named s.namedBy_name word.toList
  rw [← hcs] at hspelled
  rw [parse_of_spelled hspelled, hparts, if_pos]
  · simp
  · rw [hcs]
    exact ⟨List.append_ne_nil_of_right_ne_nil _ (List.cons_ne_nil _ _), by simpa using hchars⟩

/-- With a dot behind it and nothing more, a scope's name is not a path. -/
theorem Path.parse_dangling (s : Scope) :
    parse (s.name ++ ".") = .error (.invalidPath (s.name ++ ".")) := by
  have hcs : Text.trimChars (s.name ++ ".").toList = s.name.toList ++ ['.'] := by
    cases s <;> decide
  have hspelled := Spelled.named s.namedBy_name []
  rw [← hcs] at hspelled
  rw [parse_of_spelled hspelled, if_neg]
  exact fun h => h.2 List.mem_cons_self

namespace Settings

/-! ## What a variable sets -/

theorem suffix?_append (front rest : List Char) : suffix? front (front ++ rest) = some rest := by
  induction front with
  | nil => rfl
  | cons c front ih => simp [suffix?, ih]

theorem key?_of_suffix (hname : name.toList = marker ++ suffix) (hne : suffix ≠ []) :
    key? name = some (key suffix) := by
  obtain ⟨c, rest, rfl⟩ := List.exists_cons_of_ne_nil hne
  rw [key?, hname, suffix?_append]

/-- If no other variable sets the key, it has the variable's value. -/
theorem last?_of_unique (hnames : (vars.map Prod.fst).Nodup) (hmem : (name, raw) ∈ vars)
    (hkey : key? name = some k) (hunique : ∀ other ∈ vars, other.1 ≠ name → key? other.1 ≠ some k) :
    last? k vars = some raw := by
  have hin : (name, raw) ∈ vars.filter fun entry => key? entry.1 = some k :=
    List.mem_filter.mpr ⟨hmem, decide_eq_true hkey⟩
  have hlast := List.getLast?_eq_some_getLast (List.ne_nil_of_mem hin)
  obtain ⟨hsame, hsets⟩ := List.mem_filter.mp (List.mem_of_getLast? hlast)
  have hfst := Decidable.not_not.mp fun h => hunique _ hsame h (of_decide_eq_true hsets)
  rw [last?, hlast, List.inj_on_of_nodup_map hnames hsame hmem hfst]
  rfl

/-- The value is the one in JSON. -/
theorem parse?_of_retyped (h : Retyped raw) : Json.parse? raw = some (value raw) := by
  rcases h with ⟨b, hb⟩ | ⟨n, hn⟩
  · rw [value, hb]
  · rw [value, hn]

/-! ## Reading -/

/-- A variable with the prefix and something behind it, whose key no other variable sets, has its
value in the settings: the boolean or the number that it is in JSON, or else its text. If there
is a letter or a digit behind the prefix, the key is not empty and the value is read at every
level. Behind the prefix there may also be underscores alone. Then the key is empty, and to read
it is refused. -/
theorem get_ofVariables (hnames : (vars.map Prod.fst).Nodup) (hmem : (name, raw) ∈ vars)
    (hname : name.toList = marker ++ suffix) (hne : suffix ≠ [])
    (hchars : ∀ c ∈ suffix, c.isAlphanum ∨ c = '_')
    (hunique : ∀ other ∈ vars, other.1 ≠ name → key? other.1 ≠ some (key suffix)) :
    (ofVariables vars).find? (key suffix) = some (value raw) ∧
      (Retyped raw → Json.parse? raw = some (value raw)) ∧
      (¬ Retyped raw → value raw = .string raw) ∧
      ((∃ c ∈ suffix, c ≠ '_') → key suffix ≠ "" ∧ ∀ (t : Turn) (level : Nat),
        t.settings = ofVariables vars →
        t.get level ("settings." ++ key suffix) = .ok (some (value raw))) ∧
      ((∀ c ∈ suffix, c = '_') → key suffix = "" ∧ ∀ (t : Turn) (level : Nat),
        t.get level ("settings." ++ key suffix) = .error (.invalidPath "settings.")) := by
  have hfind : (ofVariables vars).find? (key suffix) = some (value raw) := by
    rw [find?_ofVariables, last?_of_unique hnames hmem (key?_of_suffix hname hne) hunique]
    rfl
  have hscope : "settings." = Scope.settings.name ++ "." := by decide
  rw [hscope]
  refine ⟨hfind, parse?_of_retyped, value_of_not_retyped, fun hletter => ?_, fun hblank => ?_⟩
  · have hkey : key suffix ≠ "" := by
      obtain ⟨c, hc, hne⟩ := hletter
      exact fun h => hne ((key_eq_empty_iff suffix).mp h c hc)
    have hpath := Path.parse_word .settings hkey fun c hc => isAlphanum_of_mem_key hchars hc
    exact ⟨hkey, fun t level ht => by rw [Turn.get_setting hpath, ht, hfind]⟩
  · have hkey := (key_eq_empty_iff suffix).mpr hblank
    refine ⟨hkey, fun t level => ?_⟩
    rw [hkey, String.append_empty, Turn.get, Path.parse_dangling]
    rfl

/-- Variables of a process, of which two are settings. -/
def household : List (String × String) :=
  [("PARLEY_SETTING_COMPANY_NAME", "Acme"), ("HOME", "/root"), ("PARLEY_SETTING_MAX_RETRIES", "3")]

/-- Between its two words the key has a capital, and the number of retries is a number. -/
theorem get_ofVariables_retries :
    let t : Turn := { activity := .message "console" "hi", settings := ofVariables household }
    (household.map Prod.fst).Nodup ∧ ("PARLEY_SETTING_MAX_RETRIES", "3") ∈ household ∧
      t.get 0 "settings.maxRetries" = .ok (some (.nat 3)) := by
  intro t
  have hnames : (household.map Prod.fst).Nodup := by decide
  have hmem : ("PARLEY_SETTING_MAX_RETRIES", "3") ∈ household := by decide
  have hname : "PARLEY_SETTING_MAX_RETRIES".toList = marker ++ "MAX_RETRIES".toList := by decide
  have hkey : key "MAX_RETRIES".toList = "maxRetries" := by decide +kernel
  have hvalue : value "3" = .nat 3 := by rfl
  obtain ⟨-, -, -, hread, -⟩ :=
    get_ofVariables hnames hmem hname (by decide) (by simp) (by decide +kernel)
  have hget := (hread ⟨'M', by decide, by decide⟩).2 t 0 rfl
  rw [hkey, hvalue] at hget
  exact ⟨hnames, hmem, hget⟩

/-- An underscore behind the prefix is something, but there is no letter in it: the value is held
under the empty key alone, and cannot be read there. -/
theorem get_fails_for_underscore :
    let vars := [("PARLEY_SETTING__", "x")]
    let t : Turn := { activity := .message "console" "hi", settings := ofVariables vars }
    "PARLEY_SETTING__".toList = marker ++ ['_'] ∧
      (ofVariables vars).find? "" = some (.string "x") ∧
      (∀ k, k ≠ "" → (ofVariables vars).find? k = none) ∧
      t.get 0 ("settings." ++ "") = .error (.invalidPath "settings.") := by
  intro vars t
  have hkey : key? "PARLEY_SETTING__" = some "" := by decide +kernel
  refine ⟨by decide, by rfl, fun k hk => ?_, ?_⟩
  · have hlast : last? k vars = none := by simp [vars, last?, hkey, hk.symm]
    rw [find?_ofVariables, hlast]
    rfl
  · have hpath : Path.parse ("settings." ++ "") = .error (.invalidPath "settings.") :=
      Path.parse_dangling .settings
    rw [Turn.get, hpath]
    rfl

end Settings

end Colloquy
