import Colloquy.Proofs.Runs.Endings

/-!
# The steps of a waterfall

A waterfall keeps the index of its step, its options and the values that were saved in the memory
of its frame. Each of its hooks comes by itself to the step that it runs, with what the memory
and the hook's arguments say. A step that changes nothing of this but by saving values leaves a
memory that follows from what it saved.
-/
namespace Colloquy

/-! ## What a step may change -/

namespace Path

/-- The path leads to nothing that a waterfall keeps. -/
def Spares (p : Path) : Prop :=
  p.scope = .dialog → ∀ k, p.keys.head? = some k → k ∉ ["stepIndex", "options", "values"]

/-- The keys that lead on from the values of a waterfall, if that is where the path leads. -/
def valueKeys? (p : Path) : Option (List String) :=
  if p.scope = .dialog ∧ p.keys.head? = some "values" ∧ p.keys.tail ≠ [] then some p.keys.tail
  else none

theorem valueKeys?_eq_some {p : Path} {ks : List String} (h : p.valueKeys? = some ks) :
    p.scope = .dialog ∧ p.keys = "values" :: ks ∧ ks ≠ [] := by
  unfold valueKeys? at h
  split at h
  · next hkeys =>
    obtain ⟨hscope, hhead, htail⟩ := hkeys
    obtain ⟨ks', hks⟩ := List.head?_eq_some_iff.mp hhead
    rw [hks, List.tail_cons] at h htail
    obtain rfl := Option.some.inj h
    exact ⟨hscope, hks, htail⟩
  · cases h

end Path

namespace Edit

/-- Of what a waterfall keeps, the edit changes nothing but a value among those that are saved. -/
def Modest : Edit α → Prop
  | .set path _ => ∀ p, Path.parse path = .ok p → p.Spares ∨ p.valueKeys?.isSome
  | .delete path => ∀ p, Path.parse path = .ok p → p.Spares
  | _ => True

/-- The value that is saved, and the keys that lead to it among the values. -/
def saved? : Edit α → Option (List String × Json)
  | .set path value => ((Path.parse path).toOption.bind Path.valueKeys?).map (·, value)
  | _ => none

end Edit

namespace Program

/-- All edits that the program makes by itself are modest. -/
def Modest (v : View) : Program α → Turn → Prop
  | look next, t => Modest v (next (v.sight t)) t
  | edit e next, t => e.Modest ∧ Modest v (next (e.apply v.level t).1) (e.apply v.level t).2
  | note _ next, t => Modest v next t
  | _, _ => True

/-- What the program saves by itself, in order. -/
def saves (v : View) : Program α → Turn → List (List String × Json)
  | look next, t => saves v (next (v.sight t)) t
  | edit e next, t =>
    e.saved?.toList ++ saves v (next (e.apply v.level t).1) (e.apply v.level t).2
  | note _ next, t => saves v next t
  | _, _ => []

theorem Modest.bind {v : View} {p : Program α} {f : α → Program β} {t : Turn} (hp : p.Modest v t)
    (hf : ∀ x t, (f x).Modest v t) : (p >>= f).Modest v t := by
  change (p.bind f).Modest v t
  induction p generalizing t with
  | done outcome =>
    cases outcome with
    | ok x => exact hf x t
    | error e => trivial
  | call | within => trivial
  | look next ih => exact ih (v.sight t) hp hf
  | edit e next ih => exact ⟨hp.1, ih _ hp.2 hf⟩
  | note content next ih => exact ih hp hf

theorem modest_limitNext {v : View} {p : Program α} {t : Turn} (h : p.Modest v t)
    (again : Fault) : (p.limitNext again false).Modest v t := by
  induction p generalizing t with
  | done | within => trivial
  | call c next => cases c <;> trivial
  | look next ih => exact ih (v.sight t) h
  | edit e next ih => exact ⟨h.1, ih _ h.2⟩
  | note content next ih => exact ih h

end Program

/-- Writes values where keys lead, one after another, but for those that cannot be written. -/
def Object.saveAll (m : Object) (entries : List (List String × Json)) : Object :=
  entries.foldl (fun m entry => (writeAt? entry.1 entry.2 m).getD m) m

namespace Waterfall
variable {options index : Option Json} {saved m : Object} {v : View} {t : Turn} {level : Nat}
  {id : String} {u : Stack}

/-- The frame of a waterfall. -/
abbrev frame (id : String) (m : Object) : Frame := ⟨id, some m, none, []⟩

/-- The memory of a waterfall: its options, the index of its step, and what was saved. -/
structure Remembers (options index : Option Json) (saved m : Object) : Prop where
  options : m.find? "options" = options
  index : m.find? "stepIndex" = index
  values : m.find? "values" = some (.object saved)

/-- Where something else has the same under these keys, it is remembered as well. -/
theorem Remembers.congr (hm : Remembers options index saved m) {m' : Object}
    (h : ∀ k ∈ ["stepIndex", "options", "values"], m'.find? k = m.find? k) :
    Remembers options index saved m' where
  options := (h _ (by simp)).trans hm.options
  index := (h _ (by simp)).trans hm.index
  values := (h _ (by simp)).trans hm.values

/-- Nothing that a waterfall keeps is written on a path that spares it. -/
theorem Remembers.spared (hm : Remembers options index saved m) {p : Path} (hp : p.Spares)
    (hscope : p.scope = .dialog) {value : Json} {m' : Object}
    (hwrite : Object.writeAt? p.keys value m = some m') : Remembers options index saved m' := by
  refine hm.congr fun k hk => ?_
  cases hpath : p.keys with
  | nil => simp [hpath, Object.writeAt?] at hwrite
  | cons k' ks =>
    rw [hpath] at hwrite
    refine Object.find?_writeAt? hwrite fun heq => ?_
    exact hp hscope k' (by rw [hpath]; rfl) (heq ▸ hk)

theorem Remembers.write (hm : Remembers options index saved m) {p : Path}
    (hscope : p.scope = .dialog) (hp : p.Spares ∨ p.valueKeys?.isSome) (value : Json) :
    Remembers options index (saved.saveAll (p.valueKeys?.map (·, value)).toList)
      ((Object.writeAt? p.keys value m).getD m) := by
  cases hkeys : p.valueKeys? with
  | some ks =>
    obtain ⟨-, hvalues, hks⟩ := Path.valueKeys?_eq_some hkeys
    rw [hvalues, Object.writeAt?_of_find? hks hm.values]
    cases hwrite : Object.writeAt? ks value saved with
    | none => simpa [Object.saveAll, hwrite] using hm
    | some inner =>
      refine ⟨?_, ?_, ?_⟩
      · simpa using hm.options
      · simpa using hm.index
      · simp [Object.saveAll, hwrite]
  | none =>
    have hspares : p.Spares := by simpa [hkeys] using hp
    cases hwrite : Object.writeAt? p.keys value m with
    | none => exact hm
    | some m' => exact hm.spared hspares hscope hwrite

theorem Remembers.remove (hm : Remembers options index saved m) {p : Path}
    (hscope : p.scope = .dialog) (hp : p.Spares) :
    Remembers options index saved (Object.removeAt p.keys m).2 := by
  cases hpath : p.keys with
  | nil => exact hm
  | cons k' ks =>
    refine hm.congr fun k hk => Object.find?_removeAt ks m fun heq => ?_
    exact hp hscope k' (by rw [hpath]; rfl) (heq ▸ hk)

/-- A value that is set in the dialog scope is saved, or goes to nothing that a waterfall keeps. -/
theorem Remembers.set (hm : Remembers options index saved m) {path : String} {value : Json}
    (he : (Edit.set path value).Modest) (hu : t.stackAt? level = some (frame id m :: u)) :
    ∃ m', t.Restacked level (frame id m' :: u) (t.set level path value).2 ∧
      Remembers options index (saved.saveAll (Edit.set path value).saved?.toList) m' := by
  cases hp : Path.parse path with
  | error fault =>
    have hset : (t.set level path value).2 = t := by simp [Turn.set, hp]
    rw [hset]
    exact ⟨m, .refl hu, by simpa [Edit.saved?, hp, Object.saveAll, Except.toOption] using hm⟩
  | ok p =>
    have hsaved : (Edit.set path value).saved? = p.valueKeys?.map (·, value) := by
      simp [Edit.saved?, hp, Except.toOption]
    rw [hsaved]
    by_cases hscope : p.scope = .dialog
    · refine ⟨_, ?_, hm.write hscope (he p hp) value⟩
      rw [Turn.set_owned_eq hu rfl hp hscope, Path.write]
      cases Object.writeAt? p.keys value m with
      | some m' => exact Turn.restacked_put t level _
      | none => exact .refl hu
    · have hkeys : p.valueKeys? = none := if_neg fun h => hscope h.1
      rw [hkeys]
      exact ⟨m, Turn.set_elsewhere hu hp hscope value, hm⟩

theorem Remembers.delete (hm : Remembers options index saved m) {path : String}
    (he : (Edit.delete path).Modest) (hu : t.stackAt? level = some (frame id m :: u)) :
    ∃ m', t.Restacked level (frame id m' :: u) (t.delete level path).2 ∧
      Remembers options index saved m' := by
  cases hp : Path.parse path with
  | error fault =>
    have hdelete : (t.delete level path).2 = t := by simp [Turn.delete, hp]
    rw [hdelete]
    exact ⟨m, .refl hu, hm⟩
  | ok p =>
    have hactive : t.active? level = some (frame id m) := Turn.active?_of_stackAt? hu
    have hdelete : (t.delete level path).2 = (t.change level p.scope p.remove).2 := by
      simp [Turn.delete, hp, hactive]
    rw [hdelete]
    by_cases hscope : p.scope = .dialog
    · refine ⟨_, ?_, hm.remove hscope (he p hp)⟩
      rw [hscope, Turn.change_owned_eq hu rfl, Path.remove]
      cases hkeys : p.keys with
      | nil => exact .refl hu
      | cons k ks => exact Turn.restacked_put t level _
    · exact ⟨m, Turn.change_elsewhere hu hscope _, hm⟩

/-- A modest edit leaves what a waterfall keeps, but for what it saves. -/
theorem Remembers.apply (hm : Remembers options index saved m) {e : Edit α} (he : e.Modest)
    (hu : t.stackAt? level = some (frame id m :: u)) :
    ∃ m', t.Restacked level (frame id m' :: u) (e.apply level t).2 ∧
      Remembers options index (saved.saveAll e.saved?.toList) m' := by
  cases e with
  | set path value => exact hm.set he hu
  | delete path => exact hm.delete he hu
  | openMemory =>
    have happly : (Edit.openMemory.apply level t).2 = t := by
      simp [Edit.apply, Turn.openMemory_of_owned hu rfl]
    rw [happly]
    exact ⟨m, .refl hu, hm⟩
  | send activity | takeReplies | setGlobalTags tags =>
    exact ⟨m, ⟨(Stack.put_self hu).symm, rfl⟩, hm⟩

/-- What a modest program does by itself leaves what a waterfall keeps, but for what it saves. -/
theorem Remembers.stretch (hm : Remembers options index saved m) {p : Program α}
    (hp : p.Modest v t) (hu : t.stackAt? v.level = some (frame id m :: u)) :
    ∃ m', t.Restacked v.level (frame id m' :: u) (p.stretch v t).turn ∧
      Remembers options index (saved.saveAll (p.saves v t)) m' := by
  induction p generalizing t m saved with
  | done | call | within => exact ⟨m, .refl hu, hm⟩
  | look next ih => exact ih (v.sight t) hm hp hu
  | edit e next ih =>
    obtain ⟨m₁, hfirst, hm₁⟩ := hm.apply hp.1 hu
    obtain ⟨m₂, hrest, hm₂⟩ := ih _ hm₁ hp.2 (hfirst.stackAt? hu)
    refine ⟨m₂, hfirst.trans hrest, ?_⟩
    rw [Program.saves, Object.saveAll, List.foldl_append]
    exact hm₂
  | note content next ih => exact ih hm hp hu

/-! ## Saving -/

/-- Whatever is saved under a name is saved among the values. -/
theorem valueKeys?_of_save {key : String} {p : Path}
    (h : Path.parse (valuesPath ++ "." ++ key) = .ok p) : p.valueKeys?.isSome := by
  -- the blanks that are trimmed stand after the last dot of the prefix
  have htrimmed : Text.trimChars (valuesPath ++ "." ++ key).toList = "dialog".toList ++
      '.' :: ("values".toList ++ '.' :: Text.dropEndWhile Text.isBlank key.toList) := by
    have htext : (valuesPath ++ "." ++ key).toList =
        "dialog.values".toList ++ '.' :: key.toList := by simp [valuesPath]
    have hstart : Text.trimStart ("dialog.values".toList ++ '.' :: key.toList) =
        "dialog.values".toList ++ '.' :: key.toList := Text.trimStart_of_not (by decide)
    rw [htext, Text.trimChars, hstart, Text.dropEndWhile_append_of_not (by decide)]
    rfl
  generalize Text.dropEndWhile Text.isBlank key.toList = rest at htrimmed
  have hsplit : Path.split ("dialog".toList ++ '.' :: ("values".toList ++ '.' :: rest)) =
      (.dialog, "values".toList :: Path.pieces rest) := by
    have hscope : Scope.ofName? (String.ofList "dialog".toList) = some .dialog := by
      decide +kernel
    rw [Path.split_scope (by decide) (by decide) hscope, Path.pieces_word (by decide)]
  simp only [Path.parse, htrimmed, hsplit] at h
  split at h
  · cases h
  · obtain rfl := Except.ok.inj h
    have hpieces := Path.pieces_ne_nil rest
    simp [Path.valueKeys?, hpieces]

theorem modest_save (key : String) (value : Json) (v : View) (t : Turn) :
    (save key value).Modest v t :=
  ⟨fun _ hp => .inr (valueKeys?_of_save hp), trivial⟩

/-! ## Running a step -/

/-- What a waterfall does once it has come to a step: it runs the step, or ends past the last. -/
def stepAt (w : Waterfall) (input : StepInput) : Program TurnResult :=
  match w.steps[input.index]? with
  | none => Program.finish input.result
  | some step =>
    (step input).limitNext (.invalidArgument (.stepAdvancedTwice input.index w.id)) false

variable (w : Waterfall)

/-- The values that were saved can be read. -/
theorem stretch_values (hu : t.stackAt? v.level = some (frame id m :: u))
    (hm : Remembers options index saved m) :
    values.stretch v t = ⟨.done (.ok saved), t, []⟩ := by
  have hget : t.get v.level valuesPath = .ok (some (.object saved)) := by
    rw [Turn.get_owned hu rfl parse_valuesPath rfl, Path.read_property rfl, hm.values]
  rw [values, Program.stretch_then (Program.stretch_getAs (x := saved) hget rfl)]
  rfl

/-- A step is run with the options, once its index has been noted. Past the last step nothing is. -/
theorem stretch_runStep (hu : t.stackAt? v.level = some (frame id m :: u))
    (hm : Remembers options index saved m) (k : Nat) (reason : Reason) (result : Option Json) :
    ∃ t' m' index', t.Restacked v.level (frame id m' :: u) t' ∧
      Remembers options index' saved m' ∧
      (k < w.steps.length → index' = some (.nat k)) ∧
      (w.runStep k reason result).stretch v t =
        (w.stepAt ⟨k, options, result, reason⟩).stretch v t' := by
  unfold runStep
  cases hstep : w.steps[k]? with
  | none =>
    refine ⟨t, m, index, .refl hu, hm, fun hk => ?_, ?_⟩
    · rw [List.getElem?_eq_none_iff] at hstep
      omega
    · rw [stepAt, hstep]
  | some step =>
    have hset : t.set v.level indexPath (.nat k) =
        (.ok (), t.put v.level (frame id (m.insert "stepIndex" (.nat k)) :: u)) :=
      Turn.set_property hu rfl parse_indexPath rfl rfl _
    have hput := Turn.restacked_put t v.level (frame id (m.insert "stepIndex" (.nat k)) :: u)
    have hm' : Remembers options (some (.nat k)) saved (m.insert "stepIndex" (.nat k)) :=
      ⟨by simpa using hm.options, by simp, by simpa using hm.values⟩
    have hget : (t.put v.level (frame id (m.insert "stepIndex" (.nat k)) :: u)).get v.level
        optionsPath = .ok options := by
      rw [Turn.get_owned (hput.stackAt? hu) rfl parse_optionsPath rfl, Path.read_property rfl,
        hm'.options]
    refine ⟨_, _, _, hput, hm', fun _ => rfl, ?_⟩
    simp only []
    rw [Program.stretch_then (Program.stretch_set hset), Stretch.noting_nil,
      Program.stretch_then ((Program.stretch_get _ _).trans (by rw [hget])), Stretch.noting_nil,
      stepAt, hstep]

/-- A waterfall begins with its first step, and nothing saved. -/
theorem stretch_begin (hu : t.stackAt? v.level = some (frame id m :: u)) :
    w.begin.stretch v t = (w.runStep 0 .begun none).stretch v
      (t.put v.level (frame id (m.insert "values" (.object .empty)) :: u)) := by
  have hset : t.set v.level valuesPath (.object .empty) =
      (.ok (), t.put v.level (frame id (m.insert "values" (.object .empty)) :: u)) :=
    Turn.set_property hu rfl parse_valuesPath rfl rfl _
  rw [begin, Program.stretch_then (Program.stretch_set hset), Stretch.noting_nil]

/-- A waterfall goes on with the step after the one that it has come to. -/
theorem stretch_resume (hu : t.stackAt? v.level = some (frame id m :: u)) {k : Nat}
    (hm : Remembers options (some (.nat k)) saved m) (reason : Reason) (result : Option Json) :
    (w.resume reason result).stretch v t = (w.runStep (k + 1) reason result).stretch v t := by
  have hget : t.get v.level indexPath = .ok (some (.nat k)) := by
    rw [Turn.get_owned hu rfl parse_indexPath rfl, Path.read_property rfl, hm.index]
  rw [resume, Program.stretch_then (Program.stretch_getAs (x := k) hget rfl)]
  rfl

theorem stretch_advance_message (hmessage : t.activity.isMessage = true) :
    w.advance.stretch v t =
      (w.resume .continued (t.activity.text.map .string)).stretch v t := by
  rw [advance, Program.stretch_then (Program.stretch_activity t), Stretch.noting_nil, hmessage]
  rfl

end Waterfall
end Colloquy
