import Colloquy.Proofs.Engine.Seeding

/-!
# Writing the memory that is held

What is written to the dialog scope goes into one object, in the frame that holds the active
frame's memory, and that object decides whether it can be written. Of values written one after
another, those before the first that cannot be written stay there.
-/
namespace Colloquy

namespace Object

/-- Writes values into a memory one after another, as far as they can be written. -/
def writeAll : List (String × Json) → Object → Except Fault Unit × Object
  | [], m => (.ok (), m)
  | (path, value) :: rest, m =>
    match (Path.parse path).bind (·.write value m) with
    | .ok m => writeAll rest m
    | .error e => (.error e, m)

theorem writeAll_append_ok {before after : List (String × Json)} {m m' : Object}
    (h : writeAll before m = (.ok (), m')) :
    writeAll (before ++ after) m = writeAll after m' := by
  induction before generalizing m with
  | nil =>
    obtain rfl := (Prod.mk.inj h).2
    rfl
  | cons entry rest ih =>
    obtain ⟨path, value⟩ := entry
    simp only [List.cons_append, writeAll] at h ⊢
    cases hwrite : (Path.parse path).bind (·.write value m) with
    | error e => simp [hwrite] at h
    | ok m₁ =>
      simp only [hwrite] at h ⊢
      exact ih h

theorem writeAll_append_error {before after : List (String × Json)} {m m' : Object} {e : Fault}
    (h : writeAll before m = (.error e, m')) :
    writeAll (before ++ after) m = (.error e, m') := by
  induction before generalizing m with
  | nil => cases (Prod.mk.inj h).1
  | cons entry rest ih =>
    obtain ⟨path, value⟩ := entry
    simp only [List.cons_append, writeAll] at h ⊢
    cases hwrite : (Path.parse path).bind (·.write value m) with
    | error e₀ => simpa only [hwrite] using h
    | ok m₁ =>
      simp only [hwrite] at h ⊢
      exact ih h

theorem writeAll_append {before after : List (String × Json)} {m m' : Object}
    (h : writeAll (before ++ after) m = (.ok (), m')) :
    ∃ m₁, writeAll before m = (.ok (), m₁) ∧ writeAll after m₁ = (.ok (), m') := by
  cases hbefore : writeAll before m with
  | mk outcome m₁ =>
    cases outcome with
    | ok => exact ⟨m₁, rfl, by rw [← writeAll_append_ok hbefore, h]⟩
    | error e =>
      rw [writeAll_append_error hbefore] at h
      cases (Prod.mk.inj h).1

/-- What is left by values that cannot all be written: those before the first that cannot. -/
theorem writeAll_error {m m' : Object} {entries : List (String × Json)} {e : Fault}
    (h : writeAll entries m = (.error e, m')) :
    ∃ before path value after, entries = before ++ (path, value) :: after ∧
      writeAll before m = (.ok (), m') ∧
      (Path.parse path).bind (·.write value m') = .error e := by
  induction entries generalizing m with
  | nil => cases (Prod.mk.inj h).1
  | cons entry rest ih =>
    obtain ⟨path, value⟩ := entry
    simp only [writeAll] at h
    cases hwrite : (Path.parse path).bind (·.write value m) with
    | error e₀ =>
      simp only [hwrite, Prod.mk.injEq, Except.error.injEq] at h
      obtain ⟨rfl, rfl⟩ := h
      exact ⟨[], path, value, rest, rfl, rfl, hwrite⟩
    | ok m₁ =>
      simp only [hwrite] at h
      obtain ⟨before, path', value', after, rfl, hbefore, hfails⟩ := ih h
      exact ⟨(path, value) :: before, path', value', after, rfl,
        by simpa only [writeAll, hwrite] using hbefore, hfails⟩

section
variable {j k : String} {ks : List String} {v : Json} {m m' : Object}

/-- Writing below a key that leads to an object is writing into that object. -/
theorem writeAt?_of_find? {inner : Object} (hks : ks ≠ []) (h : m.find? k = some (.object inner))
    (v : Json) :
    writeAt? (k :: ks) v m = (writeAt? ks v inner).map fun inner => m.insert k (.object inner) := by
  cases ks with
  | nil => exact absurd rfl hks
  | cons k' ks => simp only [writeAt?, h]

/-- Values that are all written below other keys leave what is under one. -/
theorem find?_writeAll {entries : List (String × Json)}
    (h : writeAll entries m = (.ok (), m')) (hspare : ∀ entry ∈ entries, ∀ p,
      Path.parse entry.1 = .ok p → p.keys.head? ≠ some k) : m'.find? k = m.find? k := by
  induction entries generalizing m with
  | nil =>
    obtain rfl := (Prod.mk.inj h).2
    rfl
  | cons entry rest ih =>
    obtain ⟨path, value⟩ := entry
    obtain ⟨hfirst, hrest⟩ := List.forall_mem_cons.mp hspare
    simp only [writeAll] at h
    cases hp : Path.parse path with
    | error e => simp [hp, Except.bind] at h
    | ok p =>
      cases hwrite : p.write value m with
      | error e => simp [hp, hwrite, Except.bind] at h
      | ok m₁ =>
        simp only [hp, Except.bind, hwrite] at h
        rw [ih h hrest]
        have hkey := hfirst p hp
        unfold Path.write at hwrite
        split at hwrite
        · next found hfound =>
          obtain rfl := Except.ok.inj hwrite
          cases hkeys : p.keys with
          | nil => simp [hkeys, writeAt?] at hfound
          | cons k' ks =>
            rw [hkeys] at hkey hfound
            exact find?_writeAt? hfound fun heq => hkey (congrArg some heq.symm)
        · cases hwrite

end

end Object

theorem Stack.modifyAt_self {s : Stack} {position : Nat} {g : Frame} {change : Frame → Frame}
    (hg : s.at? position = some g) (h : change g = g) : s.modifyAt position change = s := by
  induction s with
  | nil => cases hg
  | cons f below ih =>
    rw [at?_cons] at hg
    rw [modifyAt_cons]
    split at hg
    · next heq =>
      obtain rfl := Option.some.inj hg
      rw [if_pos heq, h]
    · next hne => rw [if_neg hne, ih hg]

/-- The stacks further in stay when a frame gets another memory. -/
theorem Stack.level?_modifyLevel_of_lt {n level : Nat} (h : n < level) (position : Nat)
    (memory : Option Object) (s : Stack) :
    level? level (modifyLevel (modifyAt · position ({ · with memory })) n s) = level? level s := by
  obtain ⟨k, rfl⟩ : ∃ k, level = k + 1 := Nat.exists_eq_add_one_of_ne_zero (Nat.ne_zero_of_lt h)
  induction n generalizing s k with
  | zero => exact level?_succ_modifyAt k position memory s
  | succ n ih =>
    cases s with
    | nil => rfl
    | cons f rest =>
      obtain ⟨j, rfl⟩ : ∃ j, k = j + 1 :=
        Nat.exists_eq_add_one_of_ne_zero (Nat.ne_zero_of_lt (Nat.lt_of_succ_lt_succ h))
      exact ih f.children j (Nat.lt_of_succ_lt_succ h)

/-- A memory in a stack further out can be written before or after another stack is put in. -/
theorem Stack.modifyLevel_put {n level : Nat} (h : n < level) (position : Nat)
    (memory : Option Object) (w s : Stack) :
    modifyLevel (modifyAt · position ({ · with memory })) n (put level w s) =
      put level w (modifyLevel (modifyAt · position ({ · with memory })) n s) := by
  obtain ⟨k, rfl⟩ : ∃ k, level = k + 1 := Nat.exists_eq_add_one_of_ne_zero (Nat.ne_zero_of_lt h)
  induction n generalizing s k with
  | zero =>
    cases s with
    | nil => simp [put, modifyLevel, modifyAt]
    | cons f rest =>
      simp only [put, modifyLevel, modifyAt_cons]
      split <;> rfl
  | succ n ih =>
    cases s with
    | nil => rfl
    | cons f rest =>
      obtain ⟨j, rfl⟩ : ∃ j, k = j + 1 :=
        Nat.exists_eq_add_one_of_ne_zero (Nat.ne_zero_of_lt (Nat.lt_of_succ_lt_succ h))
      have hinner := ih f.children j (Nat.lt_of_succ_lt_succ h)
      simp only [put, modifyLevel] at hinner ⊢
      rw [hinner]

namespace Path
variable {p : Path} {k : String}

theorem read_property (h : p.keys = [k]) (m : Object) : p.read m = m.find? k := by
  rw [read, h]
  exact Option.bind_fun_some (m.find? k)

theorem write_property (h : p.keys = [k]) (value : Json) (m : Object) :
    p.write value m = .ok (m.insert k value) := by
  rw [write, h]
  rfl

end Path

namespace Turn
variable {t : Turn} {level : Nat} {a : Address} {f g : Frame} {u : Stack} {m : Object}
  {path : String} {value : Json}

theorem withMemory_self (hg : t.frameAt? a = some g) (hm : g.memory = some m) :
    t.withMemory a m = t := by
  obtain ⟨w, hw, hat⟩ := Option.bind_eq_some_iff.mp hg
  rw [withMemory, modifyFrame, modifyStack_eq_put hw,
    Stack.modifyAt_self hat (g.with_memory hm), put_self hw]

/-- Writing what is there changes nothing, and writing anything else changes something. -/
theorem withMemory_eq_self_iff (hg : t.frameAt? a = some g) :
    t.withMemory a m = t ↔ g.memory = some m := by
  refine ⟨fun h => ?_, withMemory_self hg⟩
  have hframe := frameAt?_withMemory t a m
  rw [h, hg, Option.map_some] at hframe
  exact congrArg Frame.memory (Option.some.inj hframe)

/-! ## Changes -/

/-- A change of the dialog scope is a change of the object that is held, opened if need be. -/
theorem change_holder (ha : t.holder? level = some a) (hg : t.frameAt? a = some g)
    (update : Object → Except Fault (α × Object)) :
    t.change level .dialog update =
      match update (g.memory.getD .empty) with
      | .ok (x, m) => (.ok x, t.withMemory a m)
      | .error e => (.error e, t.withMemory a (g.memory.getD .empty)) := by
  have hmemory : t.memory? level = g.memory := by
    rw [memory?_eq, ha, Option.bind_some, hg, Option.bind_some]
  cases hm : g.memory with
  | some m =>
    simp only [change, openMemory_of_some ha (hmemory.trans hm), Option.getD_some]
    cases update m with
    | ok r => rfl
    | error e => exact congrArg (Prod.mk _) (withMemory_self hg hm).symm
  | none =>
    simp only [change, openMemory_of_none ha (hmemory.trans hm), Option.getD_none]
    cases update .empty with
    | ok r => exact congrArg (Prod.mk _) (withMemory_withMemory t a .empty r.2)
    | error e => rfl

theorem set_holder (ha : t.holder? level = some a) (hg : t.frameAt? a = some g) {p : Path}
    (hp : Path.parse path = .ok p) (hscope : p.scope = .dialog) :
    t.set level path value =
      match p.write value (g.memory.getD .empty) with
      | .ok m => (.ok (), t.withMemory a m)
      | .error e => (.error e, t.withMemory a (g.memory.getD .empty)) := by
  rw [set, hp]
  change t.change level p.scope _ = _
  rw [hscope, change_holder ha hg]
  cases p.write value (g.memory.getD .empty) <;> rfl

/-- Values written to the dialog scope one after another are written into the object that is
held, as far as they can be written. -/
theorem seed_holder {entries : List (String × Json)} (hentries : Scoped entries)
    (ha : t.holder? level = some a) (hg : t.frameAt? a = some g) (hne : entries ≠ []) :
    t.seed level entries = ((Object.writeAll entries (g.memory.getD .empty)).1,
      t.withMemory a (Object.writeAll entries (g.memory.getD .empty)).2) := by
  induction entries generalizing t g with
  | nil => exact absurd rfl hne
  | cons entry rest ih =>
    obtain ⟨path, value⟩ := entry
    obtain ⟨p, hp, hscope⟩ := hentries _ List.mem_cons_self
    have hrest : Scoped rest := fun entry he => hentries entry (List.mem_cons_of_mem _ he)
    simp only [seed, Object.writeAll, set_holder ha hg hp hscope, hp, Except.bind]
    cases p.write value (g.memory.getD .empty) with
    | error e => rfl
    | ok m =>
      cases rest with
      | nil => rfl
      | cons next more =>
        have hwritten : (t.withMemory a m).frameAt? a = some { g with memory := some m } := by
          rw [frameAt?_withMemory, hg]
          rfl
        have hmore := ih hrest (holder?_withMemory ha m) hwritten (List.cons_ne_nil _ _)
        rw [Option.getD_some] at hmore
        simp only [hmore, withMemory_withMemory]

/-! ## An active frame with a memory of its own -/

section
variable {rest : Stack} {p : Path}

theorem frameAt?_top (hu : t.stackAt? level = some (f :: rest)) :
    t.frameAt? ⟨level, rest.length⟩ = some f := by
  simp [frameAt?, hu, Stack.at?_cons]

theorem holder?_owned (hu : t.stackAt? level = some (f :: rest)) (hm : f.memory.isSome) :
    t.holder? level = some ⟨level, rest.length⟩ := by
  rw [holder?_of_memory (active?_of_stackAt? hu) hm, top, depth_of_stackAt? hu]
  rfl

theorem memory?_owned (hu : t.stackAt? level = some (f :: rest)) (hm : f.memory = some m) :
    t.memory? level = some m := by
  rw [memory?_eq, holder?_owned hu (by rw [hm]; rfl), Option.bind_some, frameAt?_top hu,
    Option.bind_some, hm]

theorem get_owned (hu : t.stackAt? level = some (f :: rest)) (hm : f.memory = some m)
    (hp : Path.parse path = .ok p) (hscope : p.scope = .dialog) :
    t.get level path = .ok (p.read m) := by
  rw [get_eq hp, hscope, scoped?, memory?_owned hu hm, Option.bind_some]

theorem change_owned_eq (hu : t.stackAt? level = some (f :: rest)) (hm : f.memory = some m)
    (update : Object → Except Fault (α × Object)) :
    t.change level .dialog update =
      match update m with
      | .ok (x, m) => (.ok x, t.put level ({ f with memory := some m } :: rest))
      | .error e => (.error e, t) := by
  have hself : t.withMemory ⟨level, rest.length⟩ m = t := withMemory_self (frameAt?_top hu) hm
  rw [change_holder (holder?_owned hu (by rw [hm]; rfl)) (frameAt?_top hu), hm,
    Option.getD_some, hself]
  cases update m with
  | ok r => exact congrArg (Prod.mk _) (withMemory_active hu r.2)
  | error e => rfl

theorem set_owned_eq (hu : t.stackAt? level = some (f :: rest)) (hm : f.memory = some m)
    (hp : Path.parse path = .ok p) (hscope : p.scope = .dialog) :
    t.set level path value =
      match p.write value m with
      | .ok m => (.ok (), t.put level ({ f with memory := some m } :: rest))
      | .error e => (.error e, t) := by
  rw [set, hp]
  change t.change level p.scope _ = _
  rw [hscope, change_owned_eq hu hm]
  cases p.write value m <;> rfl

/-- A property of the active frame's memory is set. -/
theorem set_property (hu : t.stackAt? level = some (f :: rest)) (hm : f.memory = some m)
    (hp : Path.parse path = .ok p) (hscope : p.scope = .dialog) {k : String}
    (hkeys : p.keys = [k]) (value : Json) :
    t.set level path value =
      (.ok (), t.put level ({ f with memory := some (m.insert k value) } :: rest)) := by
  rw [set_owned_eq hu hm hp hscope, Path.write_property hkeys]

end

/-! ## Under a stack that is put in -/

theorem stackAt?_withMemory_of_lt (h : a.level < level) (m : Object) :
    (t.withMemory a m).stackAt? level = t.stackAt? level :=
  Stack.level?_modifyLevel_of_lt h a.position (some m) t.stack

theorem withMemory_put_of_lt (h : a.level < level) (m : Object) (w : Stack) :
    (t.put level w).withMemory a m = (t.withMemory a m).put level w :=
  congrArg (fun s => { t with stack := s })
    (Stack.modifyLevel_put h a.position (some m) w t.stack)

theorem withMemory_put (hu : t.stackAt? a.level = some u) (m : Object) (w : Stack) :
    (t.put a.level w).withMemory a m =
      t.put a.level (w.modifyAt a.position ({ · with memory := some m })) := by
  rw [withMemory, modifyFrame, modifyStack_eq_put (stackAt?_put hu w), put_put]

/-- Writing the memory of a frame under a new one and taking that one off again is writing it. -/
theorem truncate_withMemory (hu : t.stackAt? level = some u) (hg : t.frameAt? a = some g)
    (hlevel : a.level ≤ level) (f : Frame) (m : Object) :
    ((t.put level (f :: u)).withMemory a m).truncate level u.length = t.withMemory a m := by
  rcases Nat.lt_or_eq_of_le hlevel with hlt | rfl
  · have hstill : (t.withMemory a m).stackAt? level = some u :=
      (stackAt?_withMemory_of_lt hlt m).trans hu
    have hbelow : Stack.truncate (f :: u) u.length = u := by simp [Stack.truncate]
    rw [withMemory_put_of_lt hlt, truncate, modifyStack_eq_put (stackAt?_put hstill _), put_put,
      hbelow, put_self hstill]
  · have hposition : a.position ≠ u.length := by
      obtain ⟨w, hw, hat⟩ := Option.bind_eq_some_iff.mp hg
      obtain rfl := Option.some.inj (hu.symm.trans hw)
      have hlt := (List.getElem?_eq_some_iff.mp hat).1
      rw [List.length_reverse] at hlt
      exact Nat.ne_of_lt hlt
    have hbelow : Stack.truncate (f :: u.modifyAt a.position ({ · with memory := some m }))
        u.length = u.modifyAt a.position ({ · with memory := some m }) := by
      simp [Stack.truncate]
    rw [withMemory_put hu, Stack.modifyAt_cons, if_neg hposition, truncate,
      modifyStack_eq_put (stackAt?_put hu _), put_put, hbelow, withMemory, modifyFrame,
      modifyStack_eq_put hu]

end Turn
end Colloquy
