import Colloquy.Path

/-!
# The grammar of paths

A trimmed text names its scope in one of four ways: by a dollar sign, by the scope's name and a
dot, by the name alone, or not at all. What is left is split at its dots into keys, none of
which may be empty. However a path was spelled, the name of its scope and its keys between dots
spell it as well, and a path counts as explicit exactly if it was spelled in one of the first
two ways with the dialog scope in front.
-/
namespace Colloquy

namespace Scope
variable {s s' : Scope} {word : List Char}

/-- The word is the scope's name, in any ASCII letter case. -/
def NamedBy (s : Scope) (word : List Char) : Prop := word.map Char.toLower = s.name.toList

instance : Decidable (s.NamedBy word) := inferInstanceAs (Decidable (_ = _))

theorem name_injective (h : s.name = s'.name) : s = s' := by
  cases s <;> cases s' <;> simp_all [name]

theorem namedBy_name (s : Scope) : s.NamedBy s.name.toList := by cases s <;> decide

theorem namedBy_iff : s.NamedBy word ↔ Text.sameLetters s.name (String.ofList word) := by
  have hname : Text.lower s.name = s.name := by
    rw [← String.toList_inj, Text.lower, String.toList_map]
    exact s.namedBy_name
  rw [Text.sameLetters, hname, beq_iff_eq, NamedBy, ← String.toList_inj, Text.lower,
    String.toList_map, String.toList_ofList, eq_comm]

theorem ofName?_eq_some_iff : ofName? (String.ofList word) = some s ↔ s.NamedBy word := by
  have hnamed {s : Scope} (h : ofName? (String.ofList word) = some s) : s.NamedBy word :=
    namedBy_iff.mpr (@List.find?_some _ (fun s : Scope => Text.sameLetters s.name _) _ _ h)
  refine ⟨hnamed, fun h => ?_⟩
  obtain ⟨s', hs'⟩ : ∃ s', ofName? (String.ofList word) = some s' :=
    Option.isSome_iff_exists.mp (List.find?_isSome.mpr ⟨s, mem_all s, namedBy_iff.mp h⟩)
  obtain rfl : s' = s := name_injective (String.toList_inj.mp ((hnamed hs').symm.trans h))
  exact hs'

theorem NamedBy.not_mem {c : Char} (h : s.NamedBy word) (hc : c = '.' ∨ c = '$') : c ∉ word := by
  intro hmem
  have hin : c.toLower ∈ s.name.toList := h ▸ List.mem_map_of_mem hmem
  rcases hc with rfl | rfl <;> revert hin <;> cases s <;> decide

end Scope

namespace Path
variable {cs rest : List Char} {scope : Scope} {left : Option (List Char)}

/-! ## Spellings -/

/-- How a trimmed text names its scope, and what is left for the keys. The name of a scope
alone leaves nothing, not even an empty key. -/
inductive Spelled : List Char → Scope → Option (List Char) → Prop
  | dollar (rest : List Char) : Spelled ('$' :: rest) .dialog (some rest)
  | named {scope : Scope} {word : List Char} (h : scope.NamedBy word) (rest : List Char) :
      Spelled (word ++ '.' :: rest) scope (some rest)
  | whole {scope : Scope} {word : List Char} (h : scope.NamedBy word) : Spelled word scope none
  | plain {cs : List Char} (hdollar : ∀ rest, cs ≠ '$' :: rest)
      (hname : ∀ scope word, Scope.NamedBy scope word →
        cs ≠ word ∧ ∀ rest, cs ≠ word ++ '.' :: rest) : Spelled cs .dialog (some cs)

/-- The keys that are left: the pieces between dots, of which there may be empty ones. -/
def parts (left : Option (List Char)) : List (List Char) := left.elim [] (List.splitOn '.')

theorem exists_spelled (cs : List Char) : ∃ scope left, Spelled cs scope left := by
  by_cases hdollar : ∃ rest, cs = '$' :: rest
  · obtain ⟨rest, rfl⟩ := hdollar
    exact ⟨_, _, .dollar rest⟩
  by_cases hwhole : ∃ scope : Scope, scope.NamedBy cs
  · obtain ⟨scope, h⟩ := hwhole
    exact ⟨_, _, .whole h⟩
  by_cases hnamed : ∃ (scope : Scope) (word rest : List Char),
      scope.NamedBy word ∧ cs = word ++ '.' :: rest
  · obtain ⟨scope, word, rest, h, rfl⟩ := hnamed
    exact ⟨_, _, .named h rest⟩
  · refine ⟨_, _, .plain (fun rest h => hdollar ⟨rest, h⟩) fun scope word h => ⟨?_, ?_⟩⟩
    · rintro rfl
      exact hwhole ⟨scope, h⟩
    · rintro rest rfl
      exact hnamed ⟨scope, word, rest, h, rfl⟩

theorem pieces_eq_splitOn (cs : List Char) : pieces cs = cs.splitOn '.' := by
  induction cs with
  | nil => rfl
  | cons c rest ih =>
    rw [pieces, ih, List.splitOn_cons_eq_if_modifyHead]
    by_cases hc : c = '.'
    · simp [hc]
    · obtain ⟨piece, more, hsplit⟩ := List.exists_cons_of_ne_nil (List.splitOn_ne_nil '.' rest)
      simp [hc, hsplit]

/-- A text without a dot is one piece. -/
theorem splitOn_of_not_mem (h : '.' ∉ cs) : cs.splitOn '.' = [cs] := by
  have hjoin : ['.'].intercalate [cs] = cs := List.intercalate_singleton
  have hsplit := List.splitOn_intercalate '.' (List.forall_mem_singleton.mpr h)
    (List.cons_ne_nil cs [])
  rwa [hjoin] at hsplit

/-- A text is its first piece, or goes on behind a dot. -/
theorem eq_of_splitOn {head : List Char} {more : List (List Char)}
    (h : cs.splitOn '.' = head :: more) : cs = head ∨ ∃ rest, cs = head ++ '.' :: rest := by
  have hjoin : ['.'].intercalate (cs.splitOn '.') = cs := List.intercalate_splitOn '.'
  rw [h] at hjoin
  cases more with
  | nil => exact .inl (by simpa using hjoin.symm)
  | cons next more => exact .inr ⟨['.'].intercalate (next :: more), by simp [← hjoin]⟩

theorem split_of_spelled (h : Spelled cs scope left) :
    split cs = (scope, parts left) := by
  cases h with
  | dollar rest => simp only [split, parts, pieces_eq_splitOn, Option.elim_some]
  | named h rest =>
    rw [split_scope (h.not_mem (.inl rfl)) (h.not_mem (.inr rfl)) (Scope.ofName?_eq_some_iff.mpr h),
      pieces_eq_splitOn]
    rfl
  | whole h =>
    have hpieces := (pieces_eq_splitOn cs).trans (splitOn_of_not_mem (h.not_mem (.inl rfl)))
    unfold split
    split
    · exact absurd List.mem_cons_self (h.not_mem (.inr rfl))
    · rw [hpieces]
      simp only [Scope.ofName?_eq_some_iff.mpr h]
      rfl
  | plain hdollar hname =>
    obtain ⟨head, more, hsplit⟩ := List.exists_cons_of_ne_nil (List.splitOn_ne_nil '.' cs)
    have hnone : Scope.ofName? (String.ofList head) = none := by
      refine Option.eq_none_iff_forall_ne_some.mpr fun scope hscope => ?_
      obtain ⟨hword, hrest⟩ := hname scope head (Scope.ofName?_eq_some_iff.mp hscope)
      rcases eq_of_splitOn hsplit with heq | ⟨rest, heq⟩
      · exact hword heq
      · exact hrest rest heq
    unfold split
    split
    · exact absurd rfl (hdollar _)
    · simp only [pieces_eq_splitOn, hsplit, hnone, parts, Option.elim_some]

theorem parts_injective {left' : Option (List Char)} (h : parts left = parts left') :
    left = left' := by
  cases left with
  | none =>
    cases left' with
    | none => rfl
    | some rest => exact absurd h.symm (List.splitOn_ne_nil '.' rest)
  | some rest =>
    cases left' with
    | none => exact absurd h (List.splitOn_ne_nil '.' rest)
    | some rest' =>
      have hjoin := congrArg (['.'].intercalate ·) h
      simpa [parts, List.intercalate_splitOn] using hjoin

theorem Spelled.unique {scope' : Scope} {left' : Option (List Char)}
    (h : Spelled cs scope left) (h' : Spelled cs scope' left') : scope' = scope ∧ left' = left := by
  obtain ⟨hscope, hparts⟩ := Prod.mk.inj ((split_of_spelled h').symm.trans (split_of_spelled h))
  exact ⟨hscope, parts_injective hparts⟩

/-! ## Parsing -/

/-- A text is a path if it is not blank and leaves no empty key. -/
theorem parse_of_spelled {text : String}
    (h : Spelled (Text.trimChars text.toList) scope left) :
    parse text =
      if Text.trimChars text.toList ≠ [] ∧ [] ∉ parts left then
        .ok { text, scope, keys := (parts left).map String.ofList }
      else .error (.invalidPath text) := by
  have hbad : ((Text.trimChars text.toList).isEmpty ∨ (parts left).any List.isEmpty) ↔
      ¬ (Text.trimChars text.toList ≠ [] ∧ [] ∉ parts left) := by
    simp only [List.isEmpty_iff, List.any_eq_true, exists_eq_right, ne_eq,
      Classical.not_and_iff_not_or_not, Classical.not_not]
  simp only [parse, split_of_spelled h, hbad, ite_not]

/-! ## Canonical spellings -/

/-- The name of the path's scope, followed by the keys if there are any, with dots between. -/
def canonical (p : Path) : String :=
  if p.keys = [] then p.scope.name else p.scope.name ++ "." ++ ".".intercalate p.keys

theorem trimChars_name (s : Scope) : Text.trimChars s.name.toList = s.name.toList := by
  cases s <;> decide

theorem Spelled.suffix (h : Spelled cs scope (some rest)) : rest <:+ cs := by
  cases h with
  | dollar => exact List.suffix_cons _ _
  | named => exact (List.suffix_cons _ _).trans (List.suffix_append _ _)
  | plain => exact List.suffix_refl _

/-- What is left of a trimmed text can follow the name of a scope. -/
theorem trimChars_name_append (s : Scope) (hne : rest ≠ []) (hsuffix : rest <:+ Text.trimChars cs) :
    Text.trimChars (s.name.toList ++ '.' :: rest) = s.name.toList ++ '.' :: rest := by
  have hhead (c : Char) (hc : (s.name.toList ++ '.' :: rest).head? = some c) :
      Text.isBlank c = false := by
    cases s <;> obtain rfl := Option.some.inj hc <;> rfl
  refine Text.trimChars_of_ends hhead fun c hc => ?_
  obtain ⟨front, hfront⟩ := hsuffix
  have hlast := List.getLast?_eq_some_getLast hne
  rw [List.getLast?_append, List.getLast?_cons_of_ne_nil hne, hlast, Option.some_or] at hc
  have htrimmed : (Text.trimChars cs).getLast? = some c := by
    rw [← hfront, List.getLast?_append, hlast, Option.some_or, hc]
  exact Text.isBlank_getLast?_trimChars htrimmed

theorem toList_canonical {p : Path} (hkeys : p.keys = (parts (some rest)).map String.ofList) :
    p.canonical.toList = p.scope.name.toList ++ '.' :: rest := by
  have hne : p.keys ≠ [] := by simp [hkeys, parts]
  have hdot : ".".toList = ['.'] := rfl
  rw [canonical, if_neg hne, String.toList_append, String.toList_append, String.toList_intercalate,
    hkeys, List.map_map, hdot]
  simp [parts, Function.comp_def, List.intercalate_splitOn]

/-- A path's canonical spelling leaves the same keys to its scope. -/
theorem spelled_canonical {p : Path}
    (h : Spelled (Text.trimChars cs) p.scope left) (hvalid : [] ∉ parts left)
    (hkeys : p.keys = (parts left).map String.ofList) :
    Text.trimChars p.canonical.toList ≠ [] ∧
      Spelled (Text.trimChars p.canonical.toList) p.scope left := by
  have hname : p.scope.name.toList ≠ [] := by cases p.scope <;> decide
  cases left with
  | none =>
    have htext : p.canonical = p.scope.name := if_pos hkeys
    rw [htext, trimChars_name]
    exact ⟨hname, .whole p.scope.namedBy_name⟩
  | some rest =>
    have hne : rest ≠ [] := by
      rintro rfl
      exact hvalid List.mem_cons_self
    rw [toList_canonical hkeys, trimChars_name_append p.scope hne h.suffix]
    exact ⟨List.append_ne_nil_of_left_ne_nil hname _, .named p.scope.namedBy_name rest⟩

theorem parse_canonical {text : String} {p : Path} (h : parse text = .ok p) :
    parse p.canonical = .ok { p with text := p.canonical } := by
  obtain ⟨scope, left, hspelled⟩ := exists_spelled (Text.trimChars text.toList)
  rw [parse_of_spelled hspelled] at h
  split at h
  · next hvalid =>
    obtain rfl := Except.ok.inj h
    obtain ⟨hne, hcanonical⟩ := spelled_canonical (p := ⟨text, scope, _⟩) hspelled hvalid.2 rfl
    rw [parse_of_spelled hcanonical, if_pos ⟨hne, hvalid.2⟩]
  · cases h

/-! ## Explicit dialog properties -/

theorem toLower_eq_dot {c : Char} (h : c.toLower = '.') : c = '.' := by
  unfold Char.toLower at h
  split at h
  · next hupper =>
    have hge : 65 ≤ c.toNat := UInt32.le_iff_toNat_le.mp hupper.1
    have hle : c.toNat ≤ 90 := UInt32.le_iff_toNat_le.mp hupper.2
    have hval : (c.toNat + 32) % 4294967296 = 46 := by simpa using congrArg Char.toNat h
    omega
  · exact h

theorem take_seven_iff : (cs.take 7).map Char.toLower = "dialog.".toList ↔
    ∃ word rest, Scope.dialog.NamedBy word ∧ cs = word ++ '.' :: rest := by
  constructor
  · intro h
    have hname : "dialog.".toList = Scope.dialog.name.toList ++ ['.'] := rfl
    obtain ⟨word, dot, htake, hword, hdot⟩ := List.map_eq_append_iff.mp (h.trans hname)
    obtain ⟨c, rfl, hc⟩ := List.map_eq_singleton_iff.mp hdot
    obtain rfl := toLower_eq_dot hc
    refine ⟨word, cs.drop 7, hword, ?_⟩
    have hcs := List.take_append_drop 7 cs
    rw [htake, List.append_assoc] at hcs
    exact hcs.symm
  · rintro ⟨word, rest, hword, rfl⟩
    have hlength : word.length = 6 := by rw [← List.length_map Char.toLower, hword]; rfl
    rw [List.take_append, hlength, List.take_of_length_le (by omega), List.map_append, hword]
    rfl

/-- A path leads explicitly into the dialog scope if it has keys and was spelled with a dollar
sign or with the name of the scope. -/
theorem isExplicitDialogProperty_iff {p : Path}
    (h : Spelled (Text.trimChars p.text.toList) p.scope left) :
    p.isExplicitDialogProperty ↔ p.keys ≠ [] ∧
      ((∃ rest, Text.trimChars p.text.toList = '$' :: rest) ∨
        ∃ word rest, Scope.dialog.NamedBy word ∧
          Text.trimChars p.text.toList = word ++ '.' :: rest) := by
  have hspelled : p.isExplicitDialogProperty ↔ p.scope = .dialog ∧ p.keys ≠ [] ∧
      ((∃ rest, Text.trimChars p.text.toList = '$' :: rest) ∨
        ∃ word rest, Scope.dialog.NamedBy word ∧
          Text.trimChars p.text.toList = word ++ '.' :: rest) := by
    rw [← take_seven_iff]
    simp [isExplicitDialogProperty, and_assoc, List.head?_eq_some_iff]
  rw [hspelled]
  refine ⟨And.right, fun hexplicit => ⟨?_, hexplicit⟩⟩
  rcases hexplicit.2 with ⟨rest, hdollar⟩ | ⟨word, rest, hnamed, hword⟩
  · exact ((hdollar ▸ h).unique (.dollar rest)).1.symm
  · exact ((hword ▸ h).unique (.named hnamed rest)).1.symm

/-! ## The grammar -/

/-- A text has one spelling once it is trimmed. It is a path exactly if it is not blank and
leaves no empty key, and otherwise it is refused as it was given. The path leads into the scope
that the text names, the dialog scope if it names none, and has the keys that are left. Its
canonical spelling is a path to the same place. It counts as explicit exactly if it has keys and
its text began with a dollar sign or, in any letter case, with the dialog scope's name and a dot. -/
theorem parse_spelled (text : String) :
    let cs := Text.trimChars text.toList
    ∃ scope left, Spelled cs scope left ∧
      (∀ scope' left', Spelled cs scope' left' → scope' = scope ∧ left' = left) ∧
      ((∃ p, parse text = .ok p) ↔ cs ≠ [] ∧ [] ∉ parts left) ∧
      (∀ e, parse text = .error e → e = .invalidPath text) ∧
      ∀ p, parse text = .ok p →
        p.text = text ∧ p.scope = scope ∧ p.keys = (parts left).map String.ofList ∧
        parse p.canonical = .ok { p with text := p.canonical } ∧
        (p.isExplicitDialogProperty ↔ p.keys ≠ [] ∧
          ((∃ rest, cs = '$' :: rest) ∨
            ∃ word rest, Scope.dialog.NamedBy word ∧ cs = word ++ '.' :: rest)) := by
  intro cs
  obtain ⟨scope, left, hspelled⟩ := exists_spelled cs
  have hparse := parse_of_spelled hspelled
  refine ⟨scope, left, hspelled, fun scope' left' h => hspelled.unique h, ?_⟩
  by_cases hvalid : cs ≠ [] ∧ [] ∉ parts left
  · rw [if_pos hvalid] at hparse
    refine ⟨⟨fun _ => hvalid, fun _ => ⟨_, hparse⟩⟩, fun e h => ?_, fun p h => ?_⟩
    · rw [hparse] at h
      cases h
    · have hcanonical := parse_canonical h
      obtain rfl := Except.ok.inj (hparse.symm.trans h)
      exact ⟨rfl, rfl, rfl, hcanonical, isExplicitDialogProperty_iff hspelled⟩
  · rw [if_neg hvalid] at hparse
    refine ⟨⟨?_, fun h => absurd h hvalid⟩, fun e h => ?_, fun p h => ?_⟩
    · rintro ⟨p, h⟩
      rw [hparse] at h
      cases h
    · exact (Except.error.inj (hparse.symm.trans h)).symm
    · rw [hparse] at h
      cases h

/-- An umlaut in a key is kept in the canonical spelling, and an accent behind the scope's name
makes another word of it, which is a key. -/
theorem parse_spelled_accents :
    (∃ p, parse " DIALOG.größe " = .ok p ∧ p.canonical = "dialog.größe" ∧
      p.isExplicitDialogProperty ∧
      parse "dialog.größe" = .ok ⟨"dialog.größe", .dialog, ["größe"]⟩) ∧
    ∃ p, parse "dialogé.x" = .ok p ∧ p.keys = ["dialogé", "x"] ∧ ¬ p.isExplicitDialogProperty := by
  constructor
  · have hcs : Text.trimChars " DIALOG.größe ".toList = "DIALOG".toList ++ '.' :: "größe".toList :=
      by decide +kernel
    obtain ⟨scope, left, -, hunique, hok, -, hpath⟩ := parse_spelled " DIALOG.größe "
    obtain ⟨rfl, rfl⟩ := hunique .dialog (some "größe".toList) (hcs ▸ .named (by decide) _)
    obtain ⟨p, hparse⟩ := hok.mpr ⟨by decide +kernel, by decide +kernel⟩
    obtain ⟨-, hscope, hkeys, hcanonical, hexplicit⟩ := hpath p hparse
    have htext : p.canonical = "dialog.größe" := by
      rw [canonical, hscope, hkeys]
      decide +kernel
    have hplace : p.keys = ["größe"] := hkeys.trans (by decide +kernel)
    rw [htext, hscope, hplace] at hcanonical
    exact ⟨p, hparse, htext, hexplicit.mpr ⟨by simp [hplace], .inr ⟨_, _, by decide, hcs⟩⟩,
      hcanonical⟩
  · have hparse : parse "dialogé.x" = .ok ⟨"dialogé.x", .dialog, ["dialogé", "x"]⟩ :=
      parse_eq (by decide +kernel)
    obtain ⟨_, _, -, -, -, -, hpath⟩ := parse_spelled "dialogé.x"
    obtain ⟨-, -, -, -, hexplicit⟩ := hpath _ hparse
    refine ⟨_, hparse, rfl, fun h => ?_⟩
    have hplain : ¬ ((∃ rest, Text.trimChars "dialogé.x".toList = '$' :: rest) ∨
        ∃ word rest, Scope.dialog.NamedBy word ∧
          Text.trimChars "dialogé.x".toList = word ++ '.' :: rest) := by
      rw [← take_seven_iff, ← List.head?_eq_some_iff]
      decide +kernel
    exact hplain (hexplicit.mp h).2

end Path
end Colloquy
