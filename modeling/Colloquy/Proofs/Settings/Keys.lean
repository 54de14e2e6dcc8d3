import Mathlib
import Colloquy.Proofs.Settings.Reading
import Colloquy.Proofs.Tables

/-!
# Keys of settings

In a key only capitals show where a word starts. If every word after the first starts with a
letter, that is enough to read the words back, up to the case they were written in. So two names
have the same key only if they spell the same words. Where variables all spell different words,
the settings have one entry for each of them, in whatever order they are given.
-/
namespace Colloquy.Settings
variable {vars : List (String × String)} {suffix other : List Char} {ws : List (List Char)}

/-! ## The words of a name -/

/-- The words between underscores that are not empty. -/
def terms (suffix : List Char) : List (List Char) :=
  (suffix.splitOn '_').filter fun word => !word.isEmpty

/-- The words in lower case. -/
def spelling (suffix : List Char) : List (List Char) := (terms suffix).map (List.map Char.toLower)

/-- Every word after the first starts with a letter. -/
def Lettered (ws : List (List Char)) : Prop := ∀ word ∈ ws.tail, word.head?.any Char.isAlpha

instance (ws : List (List Char)) : Decidable (Lettered ws) :=
  inferInstanceAs (Decidable (∀ word ∈ ws.tail, word.head?.any Char.isAlpha))

theorem words_eq_splitOn (cs : List Char) : words cs = cs.splitOn '_' := by
  induction cs with
  | nil => rfl
  | cons c rest ih =>
    rw [words, ih, List.splitOn_cons_eq_if_modifyHead]
    by_cases hc : c = '_'
    · simp [hc]
    · obtain ⟨word, more, hsplit⟩ := List.exists_cons_of_ne_nil (List.splitOn_ne_nil '_' rest)
      simp [hc, hsplit]

theorem key_eq (suffix : List Char) : key suffix = String.ofList (joined (spelling suffix)) := by
  rw [key, words_eq_splitOn]
  rfl

theorem lettered_spelling (h : Lettered (terms suffix)) : Lettered (spelling suffix) := by
  intro word hword
  rw [spelling, ← List.map_tail] at hword
  obtain ⟨term, hterm, rfl⟩ := List.mem_map.mp hword
  have hletter := h term hterm
  cases term with
  | nil => cases hletter
  | cons c rest => simpa using hletter

/-! ## Reading a key back -/

/-- The words as they stand in a key, of which all but the first have a capital. -/
def humps : List (List Char) → List (List Char)
  | [] => []
  | word :: rest => word :: rest.map capitalize

/-- Reads words off a key: a new one starts at each capital. -/
def recovered (key : List Char) : List (List Char) :=
  (key.splitBy fun _ c => !c.isUpper).map (List.map Char.toLower)

theorem joined_eq (ws : List (List Char)) : joined ws = (humps ws).flatten := by
  cases ws <;> rfl

theorem map_toLower_humps (ws : List (List Char)) :
    (humps ws).map (List.map Char.toLower) = ws.map (List.map Char.toLower) := by
  cases ws with
  | nil => rfl
  | cons word rest => simp [humps, map_toLower_capitalize]

theorem tail_capitalize (word : List Char) : (capitalize word).tail = word.tail := by
  cases word <;> rfl

theorem capitalize_eq_nil_iff (word : List Char) : capitalize word = [] ↔ word = [] := by
  cases word <;> simp [capitalize]

/-- A relation that holds of each member with all behind the first holds along the list. -/
theorem isChain_of_tail {α : Type u} {r : α → α → Prop} {l : List α}
    (h : ∀ a ∈ l, ∀ b ∈ l.tail, r a b) : l.IsChain r := by
  cases l with
  | nil => exact .nil
  | cons first rest =>
    have hrest : rest.Pairwise r := List.pairwise_of_forall_mem_list fun a ha b hb =>
      h a (List.mem_cons_of_mem first ha) b hb
    exact (List.pairwise_cons.mpr ⟨h first List.mem_cons_self, hrest⟩).isChain

/-- Words as they are in a spelling: none is empty and none has a capital, and every word after
the first starts with a letter. -/
structure IsSpelling (ws : List (List Char)) : Prop where
  filled : [] ∉ ws
  small : ∀ word ∈ ws, ∀ c ∈ word, c.isUpper = false
  lettered : Lettered ws

theorem isSpelling_spelling (h : Lettered (terms suffix)) : IsSpelling (spelling suffix) where
  filled := by simp [spelling, terms]
  small := by
    intro word hword c hc
    obtain ⟨term, -, rfl⟩ := List.mem_map.mp hword
    obtain ⟨d, -, rfl⟩ := List.mem_map.mp hc
    exact Char.isUpper_toLower_eq_false d
  lettered := lettered_spelling h

namespace IsSpelling

theorem map_toLower (h : IsSpelling ws) : ws.map (List.map Char.toLower) = ws := by
  have hword : ∀ word ∈ ws, word.map Char.toLower = word := by
    intro word hword
    have hc : ∀ c ∈ word, c.toLower = c := fun c hc =>
      Char.toLower_eq_of_not_isUpper (by simp [h.small word hword c hc])
    exact (List.map_congr_left hc).trans (List.map_id' word)
  exact (List.map_congr_left hword).trans (List.map_id' ws)

theorem filled_humps (h : IsSpelling ws) : [] ∉ humps ws := by
  have hfilled := h.filled
  cases ws with
  | nil => exact List.not_mem_nil
  | cons word rest => simpa [humps, capitalize_eq_nil_iff] using hfilled

/-- In a key no word has a capital behind its first letter. -/
theorem small_humps (h : IsSpelling ws) :
    ∀ hump ∈ humps ws, ∀ c ∈ hump.tail, c.isUpper = false := by
  cases ws with
  | nil => exact List.forall_mem_nil _
  | cons word rest =>
    refine List.forall_mem_cons.mpr ⟨fun c hc => ?_, fun hump hhump c hc => ?_⟩
    · exact h.small word List.mem_cons_self c (List.mem_of_mem_tail hc)
    · obtain ⟨behind, hbehind, rfl⟩ := List.mem_map.mp hhump
      rw [tail_capitalize] at hc
      exact h.small behind (List.mem_cons_of_mem word hbehind) c (List.mem_of_mem_tail hc)

/-- Every word of a key after the first starts with a capital. -/
theorem capital_humps (h : IsSpelling ws) :
    ∀ hump ∈ (humps ws).tail, ∀ c ∈ hump.head?, c.isUpper := by
  cases ws with
  | nil => exact List.forall_mem_nil _
  | cons word rest =>
    intro hump hhump c hc
    obtain ⟨behind, hbehind, rfl⟩ := List.mem_map.mp hhump
    have hletter := h.lettered behind hbehind
    cases behind with
    | nil => cases hletter
    | cons first more =>
      obtain rfl : first.toUpper = c := Option.some.inj hc
      simpa using hletter

/-- A key is cut at its capitals into the words it was joined from. -/
theorem recovered_joined (h : IsSpelling ws) : recovered (joined ws) = ws := by
  have hwithin : ∀ hump ∈ humps ws, hump.IsChain fun _ c => (!c.isUpper) = true :=
    fun hump hhump => isChain_of_tail fun _ _ c hc => by simp [h.small_humps hump hhump c hc]
  have hbetween : (humps ws).IsChain fun a b =>
      ∃ (_ : a ≠ []) (hb : b ≠ []), (!(b.head hb).isUpper) = false := by
    refine isChain_of_tail fun a ha b hb => ?_
    have hhead (hb' : b ≠ []) := h.capital_humps b hb (b.head hb') (List.head_mem_head? hb')
    have hne : b ≠ [] := ne_of_mem_of_not_mem (List.mem_of_mem_tail hb) h.filled_humps
    exact ⟨ne_of_mem_of_not_mem ha h.filled_humps, hne, by simp [hhead hne]⟩
  have hsplit : (humps ws).flatten.splitBy (fun _ c => !c.isUpper) = humps ws :=
    List.splitBy_flatten h.filled_humps hwithin hbetween
  rw [recovered, joined_eq, hsplit, map_toLower_humps, h.map_toLower]

end IsSpelling

theorem recovered_key (h : Lettered (terms suffix)) :
    recovered (key suffix).toList = spelling suffix := by
  rw [key_eq, String.toList_ofList, (isSpelling_spelling h).recovered_joined]

/-- Two names have the same key only if they spell the same words. -/
theorem key_eq_key_iff (h : Lettered (terms suffix)) (hother : Lettered (terms other)) :
    key suffix = key other ↔ spelling suffix = spelling other := by
  refine ⟨fun hkey => ?_, fun hsame => ?_⟩
  · rw [← recovered_key h, hkey, recovered_key hother]
  · rw [key_eq, key_eq, hsame]

-- A digit has no capital, and a word that starts with one is not told from what stands before it.
example : key "PORT_1".toList = key "PORT1".toList := by decide +kernel

/-! ## The settings among variables -/

/-- What stands behind the prefix of a name, if there is anything. -/
def stem? (name : String) : Option (List Char) :=
  (name.toList.dropPrefix? marker).filter fun suffix => !suffix.isEmpty

/-- The variables that are settings, each with what stands behind the prefix. -/
def stems (vars : List (String × String)) : List (List Char × String) :=
  vars.filterMap fun entry => (stem? entry.1).map (·, entry.2)

theorem suffix?_eq_dropPrefix? (front name : List Char) :
    suffix? front name = name.dropPrefix? front := by
  induction front generalizing name with
  | nil => cases name <;> rfl
  | cons p front ih =>
    cases name with
    | nil => rfl
    | cons c rest =>
      by_cases hc : p = c
      · simp [suffix?, List.dropPrefix?, ih, hc]
      · simp [suffix?, List.dropPrefix?, hc, Ne.symm hc]

theorem add_eq (settings : Object) (entry : String × String) :
    add settings entry =
      (stem? entry.1).elim settings fun suffix => settings.insert (key suffix) (value entry.2) := by
  rw [add, suffix?_eq_dropPrefix?, stem?]
  cases entry.1.toList.dropPrefix? marker with
  | none => rfl
  | some suffix => cases suffix <;> rfl

theorem foldl_add (settings : Object) (vars : List (String × String)) :
    vars.foldl add settings =
      (stems vars).foldl (fun t entry => t.insert (key entry.1) (value entry.2)) settings := by
  induction vars generalizing settings with
  | nil => rfl
  | cons entry rest ih =>
    rw [List.foldl_cons, add_eq, ih]
    cases hstem : stem? entry.1 with
    | none => simp [stems, hstem]
    | some suffix => simp [stems, hstem]

theorem ofVariables_eq (vars : List (String × String)) :
    ofVariables vars = .ofList ((stems vars).map fun entry => (key entry.1, value entry.2)) := by
  rw [ofVariables, foldl_add, Table.ofList, List.foldl_map]

/-- Names that spell different words have different keys. -/
theorem nodup_keys (hlettered : ∀ entry ∈ stems vars, Lettered (terms entry.1))
    (hdifferent : ((stems vars).map fun entry => spelling entry.1).Nodup) :
    ((stems vars).map fun entry => key entry.1).Nodup := by
  have hread : ((stems vars).map fun entry => key entry.1).map (fun k => recovered k.toList) =
      (stems vars).map fun entry => spelling entry.1 := by
    rw [List.map_map]
    exact List.map_congr_left fun entry hentry => recovered_key (hlettered entry hentry)
  exact .of_map (fun k => recovered k.toList) (hread ▸ hdifferent)

/-- If every word after the first starts with a letter, two names have the same key exactly if
their words are the same up to letter case, whatever else stands in them. So among variables that
all spell different words, each one with the prefix and something behind it has its own entry,
there is no other entry, and in every order the variables give the same settings. -/
theorem keys_tell_apart :
    (∀ suffix other, Lettered (terms suffix) → Lettered (terms other) →
      (key suffix = key other ↔ spelling suffix = spelling other)) ∧
    ∀ vars, (∀ entry ∈ stems vars, Lettered (terms entry.1)) →
      ((stems vars).map fun entry => spelling entry.1).Nodup →
      (ofVariables vars).entries.Perm
        ((stems vars).map fun entry => (key entry.1, value entry.2)) ∧
      (ofVariables vars).keys.Nodup ∧
      ∀ vars' : List (String × String), vars'.Perm vars →
        ofVariables vars' = ofVariables vars := by
  refine ⟨fun suffix other h hother => key_eq_key_iff h hother,
    fun vars hlettered hdifferent => ?_⟩
  have hkeys :
      (((stems vars).map fun entry => (key entry.1, value entry.2)).map Prod.fst).Nodup := by
    rw [List.map_map]
    exact nodup_keys hlettered hdifferent
  have hentries := ofVariables_eq vars ▸ Table.entries_ofList hkeys
  refine ⟨hentries, (hentries.map Prod.fst).nodup_iff.mpr hkeys, fun vars' hperm => ?_⟩
  have hstems : (stems vars').Perm (stems vars) := hperm.filterMap _
  rw [ofVariables_eq, ofVariables_eq, Table.ofList_perm hkeys (hstems.map _)]

/-- Variables of which three are settings, two of them with the same letters. -/
def neighbors : List (String × String) :=
  [("PARLEY_SETTING_COMPANY_NAME", "Acme"), ("HOME", "/root"),
    ("PARLEY_SETTING_companyname", "acme"), ("PARLEY_SETTING__2ND_TRY", "true")]

/-- The capital keeps the two companies apart, whichever comes first. -/
theorem keys_tell_apart_neighbors :
    let company := "COMPANY_NAME".toList
    let spaced := "company__Name".toList
    let unbroken := "companyname".toList
    Lettered (terms company) ∧ Lettered (terms spaced) ∧ Lettered (terms unbroken) ∧
    key company = key spaced ∧ key company ≠ key unbroken ∧
    (∀ entry ∈ stems neighbors, Lettered (terms entry.1)) ∧
    ((stems neighbors).map fun entry => spelling entry.1).Nodup ∧
    (ofVariables neighbors).entries.Perm
      [("companyName", .string "Acme"), ("companyname", .string "acme"), ("2ndTry", .bool true)] ∧
    ofVariables neighbors.reverse = ofVariables neighbors := by
  intro company spaced unbroken
  obtain ⟨hkeys, hsettings⟩ := keys_tell_apart
  have hcompany : Lettered (terms company) := by decide +kernel
  have hspaced : Lettered (terms spaced) := by decide +kernel
  have hunbroken : Lettered (terms unbroken) := by decide +kernel
  have hsame : spelling company = spelling spaced := by decide +kernel
  have hapart : spelling company ≠ spelling unbroken := by decide +kernel
  have hlettered : ∀ entry ∈ stems neighbors, Lettered (terms entry.1) := by decide +kernel
  have hdifferent : ((stems neighbors).map fun entry => spelling entry.1).Nodup := by
    decide +kernel
  obtain ⟨hentries, -, horder⟩ := hsettings neighbors hlettered hdifferent
  exact ⟨hcompany, hspaced, hunbroken, (hkeys company spaced hcompany hspaced).mpr hsame,
    mt (hkeys company unbroken hcompany hunbroken).mp hapart, hlettered, hdifferent, hentries,
    horder neighbors.reverse (List.reverse_perm neighbors)⟩

end Colloquy.Settings
