/-!
# Tables keyed by text

A finite map from strings, kept as entries in key order. Looking a key up
finds its first entry; inserting replaces the value where the key stands and
otherwise opens an entry at the key's place, so tables built by insertion list
every key once, in code point order.
-/
namespace Colloquy

structure Table (α : Type u) where
  entries : List (String × α) := []
  deriving Repr

namespace Table
variable {α : Type u}

def empty : Table α := ⟨[]⟩

instance : Inhabited (Table α) := ⟨empty⟩
instance : EmptyCollection (Table α) := ⟨empty⟩

def find? (t : Table α) (key : String) : Option α := t.entries.lookup key

def contains (t : Table α) (key : String) : Bool := (t.find? key).isSome

def size (t : Table α) : Nat := t.entries.length

def isEmpty (t : Table α) : Bool := t.entries.isEmpty

/-- Places an entry among entries in key order, unless the key stands there. -/
def place (key : String) (value : α) : List (String × α) → List (String × α)
  | [] => [(key, value)]
  | (k, v) :: rest =>
    if key = k then (key, value) :: rest
    else if key < k ∧ (rest.lookup key).isNone then (key, value) :: (k, v) :: rest
    else (k, v) :: place key value rest

def insert (t : Table α) (key : String) (value : α) : Table α :=
  ⟨place key value t.entries⟩

def erase (t : Table α) (key : String) : Table α :=
  ⟨t.entries.filter (fun entry => entry.1 ≠ key)⟩

/-- Later pairs win over earlier ones with the same key. -/
def ofList (pairs : List (String × α)) : Table α :=
  pairs.foldl (fun t pair => t.insert pair.1 pair.2) empty

@[simp] theorem find?_empty (key : String) : (empty : Table α).find? key = none := rfl

theorem lookup_cons_ite (k name : String) (v : α) (rest : List (String × α)) :
    ((name, v) :: rest).lookup k = if k = name then some v else rest.lookup k := by
  by_cases h : k = name
  · simp [h]
  · have hb : (k == name) = false := by simpa using h
    simp [List.lookup_cons, hb, h]

theorem lookup_place (key k : String) (value : α) (entries : List (String × α)) :
    (place key value entries).lookup k = if k = key then some value else entries.lookup k := by
  induction entries with
  | nil => simp [place, lookup_cons_ite]
  | cons entry rest ih =>
    obtain ⟨name, v⟩ := entry
    unfold place
    split
    · next h => subst h; simp only [lookup_cons_ite]; split <;> rfl
    · next h =>
      split
      · rw [lookup_cons_ite]
      · simp only [lookup_cons_ite, ih]
        by_cases hk : k = name
        · simp [hk, Ne.symm h]
        · simp [hk]

@[simp] theorem find?_insert (t : Table α) (key k : String) (value : α) :
    (t.insert key value).find? k = if k = key then some value else t.find? k :=
  lookup_place key k value t.entries

theorem lookup_filter_ne (key k : String) (entries : List (String × α)) :
    (entries.filter (fun entry => entry.1 ≠ key)).lookup k =
      if k = key then none else entries.lookup k := by
  induction entries with
  | nil => simp
  | cons entry rest ih =>
    obtain ⟨name, v⟩ := entry
    by_cases hn : name = key
    · subst hn
      rw [List.filter_cons_of_neg (by simp), ih, lookup_cons_ite]
      split <;> rfl
    · rw [List.filter_cons_of_pos (by simpa using hn), lookup_cons_ite, lookup_cons_ite, ih]
      by_cases hk : k = name
      · simp [hk, hn]
      · simp [hk]

@[simp] theorem find?_erase (t : Table α) (key k : String) :
    (t.erase key).find? k = if k = key then none else t.find? k :=
  lookup_filter_ne key k t.entries

/-- Inserting what is there changes nothing. -/
theorem insert_self {t : Table α} {key : String} {value : α} (h : t.find? key = some value) :
    t.insert key value = t := by
  have hplace (entries : List (String × α)) (hentries : entries.lookup key = some value) :
      place key value entries = entries := by
    induction entries with
    | nil => cases hentries
    | cons entry rest ih =>
      obtain ⟨k, v⟩ := entry
      rw [lookup_cons_ite] at hentries
      rw [place]
      split at hentries
      · next hk =>
        obtain rfl := Option.some.inj hentries
        rw [if_pos hk, hk]
      · next hk =>
        have hthere : ¬ (key < k ∧ (rest.lookup key).isNone) := by simp [hentries]
        rw [if_neg hk, if_neg hthere, ih hentries]
  exact congrArg Table.mk (hplace t.entries h)

/-- Erasing a key forgets what was inserted under it. -/
theorem erase_insert (t : Table α) (key : String) (value : α) :
    (t.insert key value).erase key = t.erase key := by
  have h (entries : List (String × α)) :
      (place key value entries).filter (fun entry => entry.1 ≠ key) =
        entries.filter (fun entry => entry.1 ≠ key) := by
    induction entries with
    | nil => simp [place]
    | cons entry rest ih =>
      by_cases hk : key = entry.1
      · simp [place, hk]
      · by_cases hopened : key < entry.1 ∧ (rest.lookup key).isNone
        · rw [place, if_neg hk, if_pos hopened, List.filter_cons_of_neg (by simp)]
        · have hn : ¬ entry.1 = key := fun e => hk e.symm
          rw [place, if_neg hk, if_neg hopened, List.filter_cons_of_pos (by simpa using hn),
            List.filter_cons_of_pos (by simpa using hn), ih]
  exact congrArg Table.mk (h t.entries)

/-- Erasing what is not there changes nothing. -/
theorem erase_self {t : Table α} {key : String} (h : t.find? key = none) : t.erase key = t := by
  have hkeep : ∀ entry ∈ t.entries, entry.1 ≠ key := by
    intro entry hentry heq
    have hmissing := List.lookup_eq_none_iff.mp h entry hentry
    simp [heq] at hmissing
  exact congrArg Table.mk (List.filter_eq_self.mpr fun entry hentry => by simp [hkeep entry hentry])

@[simp] theorem erase_erase (t : Table α) (key : String) :
    (t.erase key).erase key = t.erase key := by
  simp [erase, List.filter_filter]

@[simp] theorem contains_insert_self (t : Table α) (key : String) (value : α) :
    (t.insert key value).contains key = true := by simp [contains]

@[simp] theorem contains_erase_self (t : Table α) (key : String) :
    (t.erase key).contains key = false := by simp [contains]

end Table
end Colloquy
