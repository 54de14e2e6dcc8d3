import Colloquy.Table
import Mathlib.Data.List.Induction
import Mathlib.Data.List.Nodup
import Mathlib.Data.List.Pairwise

/-!
# Tables built by insertion

A new key is listed once more, and each old key as often as before. A table made by insertion
lists its keys in code point order, so it is the same table as any other with the same entries.
In which order entries with different keys are inserted makes no difference.
-/
namespace Colloquy.Table
variable {α : Type u} {key : String} {value : α} {entries : List (String × α)} {t u : Table α}
  {pairs pairs' : List (String × α)}

def keys (t : Table α) : List String := t.entries.map Prod.fst

theorem length_keys (t : Table α) : t.keys.length = t.size := by simp [keys, size]

theorem mem_keys : key ∈ t.keys ↔ (t.find? key).isSome := by
  obtain ⟨entries⟩ := t
  simp only [keys, find?]
  induction entries with
  | nil => simp
  | cons entry rest ih =>
    obtain ⟨name, value⟩ := entry
    rw [lookup_cons_ite]
    by_cases h : key = name <;> simp [h, ih]

theorem place_perm (value : α) (hnew : key ∉ entries.map Prod.fst) :
    (place key value entries).Perm ((key, value) :: entries) := by
  induction entries with
  | nil => exact .refl _
  | cons entry rest ih =>
    simp only [List.map_cons, List.mem_cons, not_or] at hnew
    rw [place, if_neg hnew.1]
    split
    · exact .refl _
    · exact ((ih hnew.2).cons entry).trans (.swap (key, value) entry rest)

/-- A new key is listed once more, and each old key as often as before. -/
theorem nodup_keys_insert (h : t.keys.Nodup) (hnew : t.find? key = none) (value : α) :
    (t.insert key value).keys.Nodup := by
  have hout : key ∉ t.keys := by simp [mem_keys, hnew]
  have hperm : (t.insert key value).keys.Perm (key :: t.keys) :=
    (place_perm value hout).map Prod.fst
  exact hperm.nodup_iff.mpr (List.nodup_cons.mpr ⟨hout, h⟩)

theorem nodup_keys_erase (h : t.keys.Nodup) (key : String) : (t.erase key).keys.Nodup :=
  h.sublist (List.filter_sublist.map Prod.fst)

/-! ## The order of the entries -/

/-- The entries stand in the order of their keys, and no key twice. -/
def Ordered (entries : List (String × α)) : Prop := entries.Pairwise fun a b => a.1 < b.1

theorem mem_place {entry : String × α} (h : entry ∈ place key value entries) :
    entry = (key, value) ∨ entry ∈ entries := by
  induction entries with
  | nil => exact .inl (List.mem_singleton.mp h)
  | cons first rest ih =>
    unfold place at h
    split at h
    · exact (List.mem_cons.mp h).imp_right (List.mem_cons_of_mem _)
    · split at h
      · exact List.mem_cons.mp h
      · rcases List.mem_cons.mp h with rfl | hrest
        · exact .inr List.mem_cons_self
        · exact (ih hrest).imp_right (List.mem_cons_of_mem _)

theorem lookup_eq_none_of_lt (h : ∀ entry ∈ entries, key < entry.1) :
    entries.lookup key = none := by
  refine List.lookup_eq_none_iff.mpr fun entry hentry => ?_
  exact bne_iff_ne.mpr (String.ne_of_lt (h entry hentry))

theorem Ordered.place (h : Ordered entries) (key : String) (value : α) :
    Ordered (place key value entries) := by
  induction entries with
  | nil => exact List.pairwise_singleton _ _
  | cons first rest ih =>
    obtain ⟨hfirst, hrest⟩ := List.pairwise_cons.mp h
    have hall (hlt : key < first.1) : ∀ entry ∈ rest, key < entry.1 :=
      fun entry hentry => String.lt_trans hlt (hfirst entry hentry)
    unfold Table.place
    split
    · next hkey => exact List.pairwise_cons.mpr ⟨hkey ▸ hfirst, hrest⟩
    · next hkey =>
      split
      · next hopens =>
        exact List.pairwise_cons.mpr ⟨List.forall_mem_cons.mpr ⟨hopens.1, hall hopens.1⟩, h⟩
      · next hopens =>
        -- The key cannot be smaller than the first one, for then it would stand nowhere behind it.
        have hle : first.1 ≤ key := String.not_lt.mp fun hlt =>
          hopens ⟨hlt, by simp [lookup_eq_none_of_lt (hall hlt)]⟩
        have hlt : first.1 < key := String.not_le.mp fun hge => hkey (String.le_antisymm hge hle)
        refine List.pairwise_cons.mpr ⟨fun entry hentry => ?_, ih hrest⟩
        rcases mem_place hentry with rfl | hold
        · exact hlt
        · exact hfirst entry hold

theorem ofList_concat (pairs : List (String × α)) (pair : String × α) :
    ofList (pairs ++ [pair]) = (ofList pairs).insert pair.1 pair.2 := by
  simp [ofList]

theorem ordered_ofList (pairs : List (String × α)) : Ordered (ofList pairs).entries := by
  induction pairs using List.reverseRecOn with
  | nil => exact .nil
  | append_singleton pairs pair ih =>
    rw [ofList_concat]
    exact ih.place pair.1 pair.2

/-- Two tables in order are the same if they have the same entries. -/
theorem eq_of_perm (ht : Ordered t.entries) (hu : Ordered u.entries)
    (h : t.entries.Perm u.entries) : t = u := by
  have heq : t.entries = u.entries :=
    h.eq_of_pairwise (fun a b _ _ hab hba => absurd hba (String.lt_asymm hab)) ht hu
  cases t
  exact congrArg Table.mk heq

/-- Each of the pairs becomes one entry, if their keys are different. -/
theorem entries_ofList (h : (pairs.map Prod.fst).Nodup) : (ofList pairs).entries.Perm pairs := by
  induction pairs using List.reverseRecOn with
  | nil => exact .refl _
  | append_singleton pairs pair ih =>
    have hperm : (pair :: pairs).Perm (pairs ++ [pair]) :=
      (List.perm_append_singleton pair pairs).symm
    obtain ⟨hnew, hpairs⟩ : pair.1 ∉ pairs.map Prod.fst ∧ (pairs.map Prod.fst).Nodup :=
      List.nodup_cons.mp ((hperm.map Prod.fst).nodup_iff.mpr h)
    have hentries := ih hpairs
    have hout : pair.1 ∉ (ofList pairs).entries.map Prod.fst :=
      fun hmem => hnew ((hentries.map Prod.fst).mem_iff.mp hmem)
    rw [ofList_concat]
    exact ((place_perm pair.2 hout).trans (hentries.cons pair)).trans hperm

/-- Pairs with different keys make the same table in every order. -/
theorem ofList_perm (hkeys : (pairs.map Prod.fst).Nodup) (h : pairs'.Perm pairs) :
    ofList pairs' = ofList pairs := by
  have hkeys' : (pairs'.map Prod.fst).Nodup := (h.map Prod.fst).nodup_iff.mpr hkeys
  have hentries : (ofList pairs').entries.Perm (ofList pairs).entries :=
    ((entries_ofList hkeys').trans h).trans (entries_ofList hkeys).symm
  exact eq_of_perm (ordered_ofList pairs') (ordered_ofList pairs) hentries

end Colloquy.Table
