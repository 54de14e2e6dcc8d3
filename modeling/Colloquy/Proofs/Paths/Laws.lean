import Colloquy.Path

/-!
# The laws of paths

A path leads into one object. A value can be written where it leads unless something other
than an object is in its way. Then the value is read there, its parts are read further on, the
prefixes of the path lead to objects, and paths that branch off read what they did before. A
value that is taken out is the one that was read, and paths that branch off do not notice.
-/
namespace Colloquy

namespace Json

/-- What keys lead to is found by following the first of them and then the others. -/
theorem at?_append (ks rest : List String) (v : Json) :
    at? (ks ++ rest) v = (at? ks v).bind (at? rest) := by
  induction ks generalizing v with
  | nil => rfl
  | cons k ks ih =>
    cases v with
    | object m =>
      cases hnext : m.find? k <;> simp [at?, hnext, ih]
    | null | bool | number | string | array => rfl

theorem at?_empty {ks : List String} (h : ks ≠ []) : at? ks (.object .empty) = none := by
  cases ks with
  | nil => exact absurd rfl h
  | cons k ks => rfl

end Json

namespace Object
variable {j k : String} {js ks keys : List String} {v : Json} {m m' : Object}

/-! ## What is in the way -/

/-- On the way that keys lead there is something other than an object. -/
def Obstructed (keys : List String) (m : Object) : Prop :=
  ∃ before k after value, keys = before ++ k :: after ∧
    Json.at? before (.object m) = some value ∧ value.object? = none

/-- What is in the way is where the first key leads or further on. -/
theorem obstructed_cons : Obstructed (k :: ks) m ↔ ∃ next, m.find? k = some next ∧
    ∃ before k' after value, ks = before ++ k' :: after ∧ Json.at? before next = some value ∧
      value.object? = none := by
  constructor
  · rintro ⟨before, k', after, value, hkeys, hat, hobject⟩
    cases before with
    | nil =>
      obtain rfl := Option.some.inj hat
      cases hobject
    | cons k₀ before =>
      obtain ⟨rfl, hks⟩ := List.cons.inj hkeys
      obtain ⟨next, hnext, hat⟩ := Option.bind_eq_some_iff.mp hat
      exact ⟨next, hnext, before, k', after, value, hks, hat, hobject⟩
  · rintro ⟨next, hnext, before, k', after, value, rfl, hat, hobject⟩
    exact ⟨k :: before, k', after, value, rfl, by simpa [Json.at?, hnext] using hat, hobject⟩

theorem not_obstructed_empty : ¬ Obstructed keys .empty := by
  cases keys with
  | nil =>
    rintro ⟨before, k, after, value, hkeys, -⟩
    simp at hkeys
  | cons k ks =>
    rw [obstructed_cons]
    rintro ⟨next, hnext, -⟩
    cases hnext

/-- A value can be written where keys lead unless there are none or the way is obstructed. -/
theorem writeAt?_eq_none_iff : writeAt? keys v m = none ↔ keys = [] ∨ Obstructed keys m := by
  fun_induction writeAt? keys v m with
  | case1 => simp
  | case2 k v m =>
    simp only [reduceCtorEq, false_or, false_iff, obstructed_cons]
    rintro ⟨next, -, before, k', after, value, hks, -⟩
    simp at hks
  | case3 k ks v m hks hnone ih =>
    simp only [Option.map_eq_none_iff, ih, not_obstructed_empty, reduceCtorEq, false_or,
      obstructed_cons, hnone]
    simpa using hks
  | case4 k ks v m hks inner hfound ih =>
    have hne : ks ≠ [] := by simpa using hks
    simp only [Option.map_eq_none_iff, ih, hne, reduceCtorEq, false_or, obstructed_cons, hfound,
      Option.some.injEq, exists_eq_left']
    rfl
  | case5 k ks v m hks value hother hfound =>
    simp only [reduceCtorEq, false_or, obstructed_cons, true_iff]
    cases ks with
    | nil => simp at hks
    | cons k' rest =>
      refine ⟨value, hfound, [], k', rest, value, rfl, rfl, ?_⟩
      cases value with
      | object inner => exact (hother inner rfl).elim
      | _ => rfl

/-! ## Writing on the way down -/

/-- Walks down the keys, opening an object wherever there is nothing yet, and puts the value
at the end of the way. Says whether it got there, and what it has left of the object. -/
def writeAlong : List String → Json → Object → Bool × Object
  | [], _, m => (false, m)
  | [k], v, m => (true, m.insert k v)
  | k :: ks, v, m =>
    match m.find? k with
    | none =>
      let (written, inner) := writeAlong ks v .empty
      (written, m.insert k (.object inner))
    | some (.object inner) =>
      let (written, inner) := writeAlong ks v inner
      (written, m.insert k (.object inner))
    | some _ => (false, m)

/-- A walk that does not get to the end of the way has opened nothing. -/
theorem writeAlong_eq (keys : List String) (v : Json) (m : Object) :
    writeAlong keys v m = ((writeAt? keys v m).isSome, (writeAt? keys v m).getD m) := by
  fun_induction writeAlong keys v m with
  | case1 => rfl
  | case2 => rfl
  | case3 k ks v m hks hnone written inner hwalk ih =>
    have hne : ks ≠ [] := by simpa using hks
    -- below an object that was just opened nothing is in the way
    obtain ⟨inner', hinner⟩ : ∃ inner', writeAt? ks v .empty = some inner' := by
      refine Option.ne_none_iff_exists'.mp fun h => ?_
      rcases writeAt?_eq_none_iff.mp h with hnil | hobstructed
      · exact hne hnil
      · exact not_obstructed_empty hobstructed
    rw [hwalk, hinner] at ih
    obtain ⟨rfl, rfl⟩ := Prod.mk.inj ih
    simp [writeAt?, hnone, hinner]
  | case4 k ks v m hks inner hfound written inner' hwalk ih =>
    rw [hwalk] at ih
    obtain ⟨rfl, rfl⟩ := Prod.mk.inj ih
    cases hinner : writeAt? ks v inner with
    | none => simp [writeAt?, hfound, hinner, Table.insert_self hfound]
    | some inner' => simp [writeAt?, hfound, hinner]
  | case5 k ks v m hks value hother hfound =>
    have hnone : writeAt? (k :: ks) v m = none := by
      cases ks with
      | nil => exact absurd rfl hks
      | cons k' ks =>
        cases value with
        | object inner => exact (hother inner rfl).elim
        | _ => simp [writeAt?, hfound]
    rw [hnone]
    rfl

/-! ## What is read after a write -/

/-- A write that goes on below its first key goes into the object there, or into one that is
opened for it. -/
theorem exists_below (hks : ks ≠ []) (h : writeAt? (k :: ks) v m = some m') :
    ∃ inner inner', (m.find? k).getD (.object .empty) = .object inner ∧
      writeAt? ks v inner = some inner' ∧ m' = m.insert k (.object inner') := by
  cases ks with
  | nil => exact absurd rfl hks
  | cons k' ks =>
    cases hfound : m.find? k with
    | none =>
      simp only [writeAt?, hfound, Option.map_eq_some_iff] at h
      obtain ⟨inner', hinner, rfl⟩ := h
      exact ⟨.empty, inner', rfl, hinner, rfl⟩
    | some value =>
      cases value with
      | object inner =>
        simp only [writeAt?, hfound, Option.map_eq_some_iff] at h
        obtain ⟨inner', hinner, rfl⟩ := h
        exact ⟨inner, inner', rfl, hinner, rfl⟩
      | null | bool | number | string | array => simp [writeAt?, hfound] at h

/-- What is written where keys lead is read there. -/
theorem at?_writeAt? (h : writeAt? keys v m = some m') : Json.at? keys (.object m') = some v := by
  induction keys generalizing m m' with
  | nil => cases h
  | cons k ks ih =>
    by_cases hks : ks = []
    · subst hks
      obtain rfl := Option.some.inj h
      simp [Json.at?]
    · obtain ⟨inner, inner', -, hinner, rfl⟩ := exists_below hks h
      simpa [Json.at?] using ih hinner

/-- What is written below one key is not written below another. -/
theorem find?_writeAt? (h : writeAt? (k :: ks) v m = some m') (hj : j ≠ k) :
    m'.find? j = m.find? j := by
  by_cases hks : ks = []
  · subst hks
    obtain rfl := Option.some.inj h
    simp [hj]
  · obtain ⟨inner, inner', -, -, rfl⟩ := exists_below hks h
    simp [hj]

/-- On the way to what was written there are objects. -/
theorem exists_object_on_way (h : writeAt? keys v m = some m') (hjs : js <+: keys)
    (hne : js ≠ keys) : ∃ inner, Json.at? js (.object m') = some (.object inner) := by
  induction keys generalizing js m m' with
  | nil => exact absurd (List.prefix_nil.mp hjs) hne
  | cons k ks ih =>
    cases js with
    | nil => exact ⟨m', rfl⟩
    | cons j js =>
      obtain ⟨rfl, htail⟩ := List.cons_prefix_cons.mp hjs
      have hrest : js ≠ ks := fun heq => hne (congrArg (j :: ·) heq)
      have hks : ks ≠ [] := by
        rintro rfl
        exact hrest (List.prefix_nil.mp htail)
      obtain ⟨inner, inner', -, hinner, rfl⟩ := exists_below hks h
      simpa [Json.at?] using ih hinner htail hrest

/-! ## Keys that branch off -/

/-- Neither of two lists of keys leads to where the other passes. -/
def Apart (js ks : List String) : Prop := ¬ js <+: ks ∧ ¬ ks <+: js

theorem Apart.symm (h : Apart js ks) : Apart ks js := ⟨h.2, h.1⟩

theorem Apart.ne_nil (h : Apart js ks) : js ≠ [] := by
  rintro rfl
  exact h.1 List.nil_prefix

/-- Keys are apart from the first on, or after a common first one. -/
theorem apart_cons : Apart (j :: js) (k :: ks) ↔ j ≠ k ∨ Apart js ks := by
  simp only [Apart, List.cons_prefix_cons]
  by_cases hjk : j = k
  · simp [hjk]
  · simp [hjk, Ne.symm hjk]

/-- Keys that branch off from those of a write lead to what they did before. -/
theorem at?_writeAt?_of_apart (h : writeAt? keys v m = some m') (hapart : Apart js keys) :
    Json.at? js (.object m') = Json.at? js (.object m) := by
  induction keys generalizing js m m' with
  | nil => cases h
  | cons k ks ih =>
    cases js with
    | nil => exact absurd rfl hapart.ne_nil
    | cons j js =>
      by_cases hjk : j = k
      · subst hjk
        have hrest : Apart js ks := (apart_cons.mp hapart).resolve_left fun hne => hne rfl
        obtain ⟨inner, inner', hinner, hwrite, rfl⟩ := exists_below hrest.symm.ne_nil h
        have hbefore : Json.at? (j :: js) (.object m) = Json.at? js (.object inner) := by
          cases hfound : m.find? j with
          | none =>
            rw [hfound] at hinner
            obtain rfl := Json.object.inj hinner
            simp [Json.at?, hfound, Json.at?_empty hrest.ne_nil]
          | some value =>
            rw [hfound] at hinner
            obtain rfl : value = .object inner := hinner
            simp [Json.at?, hfound]
        rw [hbefore, ← ih hwrite hrest]
        simp [Json.at?]
      · simp only [Json.at?, find?_writeAt? h hjk]

/-! ## Taking a value out -/

theorem removeAt_of_object (hks : ks ≠ []) {inner : Object} (h : m.find? k = some (.object inner)) :
    removeAt (k :: ks) m = ((removeAt ks inner).1, m.insert k (.object (removeAt ks inner).2)) := by
  cases ks with
  | nil => exact absurd rfl hks
  | cons k' ks => simp only [removeAt, h]

/-- Where the first key leads to no object, the others lead to nothing that could be taken. -/
theorem removeAt_of_other (hks : ks ≠ []) (h : ∀ inner, m.find? k ≠ some (.object inner)) :
    removeAt (k :: ks) m = (none, m) ∧ Json.at? (k :: ks) (.object m) = none := by
  cases ks with
  | nil => exact absurd rfl hks
  | cons k' ks =>
    cases hfound : m.find? k with
    | none => simp [removeAt, Json.at?, hfound]
    | some value =>
      cases value with
      | object inner => exact absurd hfound (h inner)
      | null | bool | number | string | array => simp [removeAt, Json.at?, hfound]

/-- What is taken out is what was read, and it is not there any more. If nothing was there,
nothing has changed. -/
theorem removeAt_spec (hkeys : keys ≠ []) (m : Object) :
    (removeAt keys m).1 = Json.at? keys (.object m) ∧
    Json.at? keys (.object (removeAt keys m).2) = none ∧
    (Json.at? keys (.object m) = none → (removeAt keys m).2 = m) := by
  induction keys generalizing m with
  | nil => exact absurd rfl hkeys
  | cons k ks ih =>
    by_cases hks : ks = []
    · subst hks
      have hread : Json.at? [k] (.object m) = m.find? k := Option.bind_fun_some (m.find? k)
      rw [hread]
      exact ⟨rfl, by simp [removeAt, Json.at?], Table.erase_self⟩
    · by_cases hfound : ∃ inner, m.find? k = some (.object inner)
      · obtain ⟨inner, hfound⟩ := hfound
        obtain ⟨htaken, hgone, hsame⟩ := ih hks inner
        rw [removeAt_of_object hks hfound]
        refine ⟨by simpa [Json.at?, hfound] using htaken, by simpa [Json.at?] using hgone,
          fun hnone => ?_⟩
        have hinner : Json.at? ks (.object inner) = none := by simpa [Json.at?, hfound] using hnone
        simp [hsame hinner, Table.insert_self hfound]
      · obtain ⟨hremove, hnone⟩ := removeAt_of_other hks fun inner h => hfound ⟨inner, h⟩
        rw [hremove]
        exact ⟨hnone.symm, hnone, fun _ => rfl⟩

theorem find?_removeAt (ks : List String) (m : Object) (hj : j ≠ k) :
    (removeAt (k :: ks) m).2.find? j = m.find? j := by
  by_cases hks : ks = []
  · subst hks
    simp [removeAt, hj]
  · by_cases hfound : ∃ inner, m.find? k = some (.object inner)
    · obtain ⟨inner, hfound⟩ := hfound
      simp [removeAt_of_object hks hfound, hj]
    · rw [(removeAt_of_other hks fun inner h => hfound ⟨inner, h⟩).1]

/-- Keys that branch off from those of a removal lead to what they did before. -/
theorem at?_removeAt_of_apart (hapart : Apart js keys) (m : Object) :
    Json.at? js (.object (removeAt keys m).2) = Json.at? js (.object m) := by
  induction keys generalizing js m with
  | nil => exact absurd rfl hapart.symm.ne_nil
  | cons k ks ih =>
    cases js with
    | nil => exact absurd rfl hapart.ne_nil
    | cons j js =>
      by_cases hjk : j = k
      · subst hjk
        have hrest : Apart js ks := (apart_cons.mp hapart).resolve_left fun hne => hne rfl
        by_cases hfound : ∃ inner, m.find? j = some (.object inner)
        · obtain ⟨inner, hfound⟩ := hfound
          rw [removeAt_of_object hrest.symm.ne_nil hfound]
          simpa [Json.at?, hfound] using ih hrest inner
        · rw [(removeAt_of_other hrest.symm.ne_nil fun inner h => hfound ⟨inner, h⟩).1]
      · simp only [Json.at?, find?_removeAt ks m hjk]

end Object

namespace Path
variable {p q : Path} {v : Json} {m m' : Object}

/-- Writes while walking down the path. What is left of the object is left also by a walk
that fails. -/
def writeAlong (p : Path) (v : Json) (m : Object) : Except Fault Unit × Object :=
  match Object.writeAlong p.keys v m with
  | (true, m) => (.ok (), m)
  | (false, m) => (.error (.invalidPath p.text), m)

theorem write_eq_ok_iff : p.write v m = .ok m' ↔ Object.writeAt? p.keys v m = some m' := by
  rw [write]
  cases Object.writeAt? p.keys v m <;> simp

theorem write_eq_error_iff {e : Fault} : p.write v m = .error e ↔
    e = .invalidPath p.text ∧ (p.keys = [] ∨ Object.Obstructed p.keys m) := by
  rw [write, ← Object.writeAt?_eq_none_iff (v := v)]
  cases Object.writeAt? p.keys v m with
  | none => simp [eq_comm]
  | some m => simp

/-- A walk down the path leaves what the write makes of the object, and the object as it was
if the value cannot be written. -/
theorem writeAlong_eq (p : Path) (v : Json) (m : Object) :
    p.writeAlong v m =
      match p.write v m with
      | .ok m' => (.ok (), m')
      | .error e => (.error e, m) := by
  rw [writeAlong, write, Object.writeAlong_eq]
  cases Object.writeAt? p.keys v m <;> rfl

theorem read_of_write (h : p.write v m = .ok m') (hkeys : q.keys = p.keys) :
    q.read m' = some v := by
  rw [read, hkeys]
  exact Object.at?_writeAt? (write_eq_ok_iff.mp h)

/-- A write along a path fails just when the path names a whole scope or something other than
an object is in its way, and then a walk down the path has left the object as it was. If it
succeeds, the path reads the value, a longer one what its further keys find in the value, a
shorter one an object, and one that branches off what it read before. A removal takes out what
the path read, if the path has keys; then the path reads nothing, those that branch off read
what they read before, and if there was nothing to take, the object is what it was. -/
theorem write_and_remove (p : Path) (v : Json) (m : Object) :
    ((∃ e, p.write v m = .error e) ↔ p.keys = [] ∨ Object.Obstructed p.keys m) ∧
    (∀ e, p.write v m = .error e →
      e = .invalidPath p.text ∧ p.writeAlong v m = (.error e, m)) ∧
    (∀ m', p.write v m = .ok m' →
      p.writeAlong v m = (.ok (), m') ∧ p.read m' = some v ∧
      (∀ (q : Path) rest, q.keys = p.keys ++ rest → q.read m' = Json.at? rest v) ∧
      (∀ q : Path, Object.Apart q.keys p.keys → q.read m' = q.read m) ∧
      ∀ q : Path, q.keys <+: p.keys → q.keys ≠ p.keys →
        ∃ inner, q.read m' = some (.object inner)) ∧
    (p.keys = [] → p.remove m = .error (.invalidPath p.text)) ∧
    (p.keys ≠ [] → ∃ m', p.remove m = .ok (p.read m, m') ∧ p.read m' = none ∧
      (∀ q : Path, Object.Apart q.keys p.keys → q.read m' = q.read m) ∧
      (p.read m = none → m' = m)) := by
  refine ⟨⟨?_, fun h => ⟨_, write_eq_error_iff.mpr ⟨rfl, h⟩⟩⟩, fun e h => ⟨?_, ?_⟩,
    fun m' h => ⟨?_, read_of_write h rfl, fun q rest hq => ?_, fun q hq => ?_,
      fun q hq hne => ?_⟩, fun h => ?_, fun h => ?_⟩
  · rintro ⟨e, h⟩
    exact (write_eq_error_iff.mp h).2
  · exact (write_eq_error_iff.mp h).1
  · rw [writeAlong_eq, h]
  · rw [writeAlong_eq, h]
  · rw [read, hq, Json.at?_append, Object.at?_writeAt? (write_eq_ok_iff.mp h), Option.bind_some]
  · exact Object.at?_writeAt?_of_apart (write_eq_ok_iff.mp h) hq
  · exact Object.exists_object_on_way (write_eq_ok_iff.mp h) hq hne
  · simp [remove, h]
  · obtain ⟨htaken, hgone, hsame⟩ := Object.removeAt_spec h m
    refine ⟨(Object.removeAt p.keys m).2, ?_, hgone,
      fun q hq => Object.at?_removeAt_of_apart hq m, hsame⟩
    simp only [remove, List.isEmpty_iff, h, if_false, read, ← htaken]

/-- A street cannot be written into an address that is a text, a name goes into a profile that
is opened for it, and the address stays what it was. -/
theorem write_and_remove_profile :
    let m : Object := Table.empty.insert "address" (.string "here")
    let street : Path := ⟨"user.address.street", .user, ["address", "street"]⟩
    let name : Path := ⟨"user.profile.name", .user, ["profile", "name"]⟩
    let address : Path := ⟨"user.address", .user, ["address"]⟩
    street.writeAlong (.string "main") m = (.error (.invalidPath "user.address.street"), m) ∧
    ∃ m', name.write (.string "Ada") m = .ok m' ∧ name.read m' = some (.string "Ada") ∧
      address.read m' = some (.string "here") := by
  intro m street name address
  obtain ⟨-, hfails, -⟩ := write_and_remove street (.string "main") m
  obtain ⟨-, -, hwrites, -⟩ := write_and_remove name (.string "Ada") m
  have hstreet : street.write (.string "main") m = .error (.invalidPath "user.address.street") :=
    rfl
  obtain ⟨m', hname⟩ : ∃ m', name.write (.string "Ada") m = .ok m' := ⟨_, rfl⟩
  obtain ⟨-, hread, -, hapart, -⟩ := hwrites m' hname
  have haddress : Object.Apart address.keys name.keys := by
    rw [Object.apart_cons]
    exact .inl (by decide)
  exact ⟨(hfails _ hstreet).2, m', hname, hread, hapart address haddress⟩

end Path
end Colloquy
