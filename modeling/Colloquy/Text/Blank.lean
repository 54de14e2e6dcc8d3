/-!
# Blank characters

The characters with the Unicode property `White_Space`, and trimming them
from both ends of a text.
-/
namespace Colloquy.Text

def isBlank (c : Char) : Bool :=
  let n := c.toNat
  (9 ≤ n && n ≤ 13) || n == 0x20 || n == 0x85 || n == 0xa0 || n == 0x1680
    || (0x2000 ≤ n && n ≤ 0x200a) || n == 0x2028 || n == 0x2029 || n == 0x202f
    || n == 0x205f || n == 0x3000

def trimStart (cs : List Char) : List Char := cs.dropWhile isBlank

/-- Drops the characters at the end that satisfy the test. -/
def dropEndWhile (p : Char → Bool) (cs : List Char) : List Char :=
  (cs.reverse.dropWhile p).reverse

def trimChars (cs : List Char) : List Char := dropEndWhile isBlank (trimStart cs)

def trim (s : String) : String := String.ofList (trimChars s.toList)

/-- Nothing but blanks. -/
def isBlankText (s : String) : Bool := (trimChars s.toList).isEmpty

/-! ## Trimmed texts -/

theorem trimStart_of_not {c : Char} {rest : List Char} (hc : isBlank c = false) :
    trimStart (c :: rest) = c :: rest := by
  simp [trimStart, hc]

theorem trimStart_trimStart (cs : List Char) : trimStart (trimStart cs) = trimStart cs := by
  unfold trimStart
  induction cs with
  | nil => rfl
  | cons c rest ih =>
    cases hc : isBlank c with
    | true => simpa [hc] using ih
    | false => simp [hc]

/-- What begins a list that does not start with a blank does not start with one. -/
theorem trimStart_of_append {front back : List Char}
    (h : trimStart (front ++ back) = front ++ back) : trimStart front = front := by
  cases front with
  | nil => rfl
  | cons c rest =>
    cases hc : isBlank c with
    | false => exact trimStart_of_not hc
    | true =>
      have hlength := congrArg List.length h
      have hle := (List.dropWhile_suffix isBlank (l := rest ++ back)).length_le
      simp only [trimStart, List.cons_append, List.dropWhile_cons, hc, if_true,
        List.length_cons] at hlength
      omega

theorem dropEndWhile_append (cs : List Char) :
    ∃ dropped, dropEndWhile isBlank cs ++ dropped = cs := by
  obtain ⟨dropped, h⟩ := List.dropWhile_suffix isBlank (l := cs.reverse)
  refine ⟨dropped.reverse, ?_⟩
  rw [dropEndWhile, ← List.reverse_append, h, List.reverse_reverse]

theorem trimChars_trimChars (cs : List Char) : trimChars (trimChars cs) = trimChars cs := by
  obtain ⟨dropped, h⟩ := dropEndWhile_append (trimStart cs)
  have hstart : trimStart (trimChars cs) = trimChars cs := by
    have hall : trimStart (trimChars cs ++ dropped) = trimChars cs ++ dropped := by
      rw [trimChars, h, trimStart_trimStart]
    exact trimStart_of_append hall
  have hend : dropEndWhile isBlank (trimChars cs) = trimChars cs := by
    have hreversed := trimStart_trimStart (trimStart cs).reverse
    rw [trimStart, trimStart] at hreversed
    rw [trimChars, dropEndWhile, dropEndWhile, List.reverse_reverse, hreversed]
  rw [trimChars, hstart, hend]

theorem trim_trim (s : String) : trim (trim s) = trim s := by
  simp [trim, trimChars_trimChars]

/-- A trimmed text is blank only if it is empty. -/
theorem isBlankText_trim (s : String) : isBlankText (trim s) = (trim s).isEmpty := by
  have htrimmed : trimChars (trim s).toList = (trim s).toList := by
    simp [trim, trimChars_trimChars]
  rw [isBlankText, htrimmed, Bool.eq_iff_iff, List.isEmpty_iff, String.isEmpty_iff,
    String.toList_eq_nil_iff]

/-- Nothing is dropped up to a character that does not satisfy the test. -/
theorem dropEndWhile_append_of_not {p : Char → Bool} {c : Char} (hc : p c = false)
    (front back : List Char) :
    dropEndWhile p (front ++ c :: back) = front ++ c :: dropEndWhile p back := by
  have hkept (cs : List Char) : (c :: cs).dropWhile p = c :: cs := by simp [hc]
  rw [dropEndWhile, dropEndWhile, List.reverse_append, List.reverse_cons, List.append_assoc,
    List.singleton_append, List.dropWhile_append, hkept]
  split
  · next hempty => simp [List.isEmpty_iff.mp hempty]
  · simp

/-- A text that begins with a character to be seen is not blank. -/
theorem isBlankText_of_cons {s : String} {c : Char} {rest : List Char}
    (hs : s.toList = c :: rest) (hc : isBlank c = false) : isBlankText s = false := by
  have hend : dropEndWhile isBlank (c :: rest) = c :: dropEndWhile isBlank rest :=
    dropEndWhile_append_of_not hc [] rest
  rw [isBlankText, trimChars, hs, trimStart_of_not hc, hend]
  rfl

/-! ## Blanks at the ends -/

theorem isBlank_head?_trimStart {cs : List Char} {c : Char} (h : (trimStart cs).head? = some c) :
    isBlank c = false := by
  have hnot := List.head?_dropWhile_not isBlank cs
  rwa [show List.dropWhile isBlank cs = trimStart cs from rfl, h] at hnot

/-- The last character of a trimmed text is no blank. -/
theorem isBlank_getLast?_trimChars {cs : List Char} {c : Char}
    (h : (trimChars cs).getLast? = some c) : isBlank c = false := by
  rw [trimChars, dropEndWhile, List.getLast?_reverse] at h
  exact isBlank_head?_trimStart h

theorem trimStart_of_head? {cs : List Char} (h : ∀ c, cs.head? = some c → isBlank c = false) :
    trimStart cs = cs := by
  cases cs with
  | nil => rfl
  | cons c rest => exact trimStart_of_not (h c rfl)

/-- A text with no blank at either end is trimmed. -/
theorem trimChars_of_ends {cs : List Char} (hhead : ∀ c, cs.head? = some c → isBlank c = false)
    (hlast : ∀ c, cs.getLast? = some c → isBlank c = false) : trimChars cs = cs := by
  have hend : trimStart cs.reverse = cs.reverse :=
    trimStart_of_head? fun c hc => hlast c (by rwa [List.head?_reverse] at hc)
  rw [trimStart] at hend
  rw [trimChars, trimStart_of_head? hhead, dropEndWhile, hend, List.reverse_reverse]

end Colloquy.Text
