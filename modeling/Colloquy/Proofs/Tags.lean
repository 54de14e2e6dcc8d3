import Mathlib.Data.List.Induction
import Colloquy.View

/-!
# Active tags

The tags that are active in a context are the global ones and those of the frames of each level
from the root to its own, every text where it comes first. What a frame's id means is settled
at the frame's level: the sets of dialogs further in play no part. So a child context goes on
where its parent's tags end, whatever it registers.
-/
namespace Colloquy

namespace Sight

/-! ## First occurrences -/

theorem distinct_concat (texts : List String) (text : String) :
    distinct (texts ++ [text]) =
      if text ∈ distinct texts then distinct texts else distinct texts ++ [text] := by
  simp [distinct, List.foldl_append]

theorem distinct_eq_eraseDups (texts : List String) : distinct texts = texts.eraseDups := by
  induction texts using List.reverseRecOn with
  | nil => rfl
  | append_singleton texts text ih =>
    simp only [distinct_concat, ih, List.eraseDups_append, List.mem_eraseDups]
    by_cases h : text ∈ texts <;> simp [List.removeAll, List.eraseDups_cons, h]

theorem nodup_distinct (texts : List String) : (distinct texts).Nodup := by
  induction texts using List.reverseRecOn with
  | nil => exact List.nodup_nil
  | append_singleton texts text ih =>
    rw [distinct_concat]
    split
    · exact ih
    · next hnew => exact List.nodup_append.mpr ⟨ih, by simp, by grind⟩

/-- Texts that come later are kept behind the earlier ones. -/
theorem distinct_prefix (texts more : List String) :
    distinct texts <+: distinct (texts ++ more) := by
  induction more using List.reverseRecOn with
  | nil => simp
  | append_singleton more text ih =>
    rw [← List.append_assoc, distinct_concat]
    split
    · exact ih
    · exact ih.trans (List.prefix_append _ _)

end Sight

/-! ## Levels -/

/-- The stacks of a chain are those of the levels, as far as there are any. -/
theorem Stack.flatMap_chain {α : Type} (g : Nat → Stack → List α) (n first : Nat) (s : Stack) :
    ((chain n s).zipIdx first).flatMap (fun entry => g entry.2 entry.1) =
      (List.range (n + 1)).flatMap fun i => ((level? i s).map (g (first + i))).getD [] := by
  induction n generalizing first s with
  | zero => simp [chain]
  | succ n ih =>
    rw [List.range_succ_eq_map, List.flatMap_cons, List.flatMap_map]
    cases s with
    | nil => simp [chain]
    | cons f rest =>
      have hinner := ih (first + 1) f.children
      simp only [chain, List.zipIdx_cons, List.flatMap_cons, hinner, level?_zero, level?_succ_cons,
        Option.map_some, Option.getD_some, Nat.add_zero, Nat.succ_eq_add_one, Nat.add_right_comm,
        Nat.add_assoc]

namespace View
variable {v : View} {t : Turn} {level : Nat}

/-- The tags of the frames at a level, the active one first. An id is looked up in the set of
that level and in those around it. -/
def tagsAt (v : View) (t : Turn) (level : Nat) : List String :=
  ((t.stackAt? level).getD []).flatMap fun f =>
    (((v.sets.drop (v.level - level)).findSome? (·.find? f.id)).map Dialog.tags).getD []

theorem map_tags_describe (v : View) (level : Nat) (id : String) :
    (v.describe level id).map Description.tags =
      ((v.sets.drop (v.level - level)).findSome? (·.find? id)).map Dialog.tags := by
  rw [describe, find?, sets_atLevel, Option.map_map]
  rfl

theorem activeTags_eq_distinct (v : View) (t : Turn) :
    (v.sight t).activeTags =
      Sight.distinct (t.globalTags ++ (List.range (v.level + 1)).flatMap (v.tagsAt t)) := by
  have hlevels := Stack.flatMap_chain (fun level stack => stack.flatMap fun f =>
    ((v.describe level f.id).map Description.tags).getD []) v.level 0 t.stack
  have htags (level : Nat) : v.tagsAt t level = ((Stack.level? level t.stack).map fun stack =>
      stack.flatMap fun f => ((v.describe level f.id).map Description.tags).getD []).getD [] := by
    simp only [map_tags_describe, tagsAt, Turn.stackAt?]
    cases Stack.level? level t.stack <;> rfl
  simp only [Nat.zero_add, ← htags] at hlevels
  exact congrArg (fun tags => Sight.distinct (t.globalTags ++ tags)) hlevels

/-- Seen from further in, the tags of a level are the same. -/
theorem tagsAt_parent? {outside : View} (h : v.parent? = some outside) (t : Turn)
    (hle : level ≤ outside.level) : v.tagsAt t level = outside.tagsAt t level := by
  have hskip : v.level - level = (outside.level - level) + 1 := by
    rw [level_parent? h]
    omega
  simp only [tagsAt, hskip, sets_parent? h, List.drop_succ_cons]

/-- The active tags are the global ones and those of the frames of each level from the root to the
context's own, each level from its active frame down, and each text where it comes first. None is
there twice, and the tags of an enclosing context come before all others. -/
theorem activeTags_firsts (v : View) (t : Turn) :
    (v.sight t).activeTags =
      (t.globalTags ++ (List.range (v.level + 1)).flatMap (v.tagsAt t)).eraseDups ∧
    (v.sight t).activeTags.Nodup ∧
    ∀ outside, v.parent? = some outside →
      (outside.sight t).activeTags <+: (v.sight t).activeTags := by
  refine ⟨?_, ?_, fun outside houtside => ?_⟩
  · rw [activeTags_eq_distinct, Sight.distinct_eq_eraseDups]
  · rw [activeTags_eq_distinct]
    exact Sight.nodup_distinct _
  · have hsame : (List.range (outside.level + 1)).flatMap (v.tagsAt t) =
        (List.range (outside.level + 1)).flatMap (outside.tagsAt t) := by
      rw [List.flatMap_def, List.flatMap_def, List.map_congr_left fun level hlevel =>
        tagsAt_parent? houtside t (Nat.le_of_lt_succ (List.mem_range.mp hlevel))]
    have hlevels : List.range (v.level + 1) =
        List.range (outside.level + 1) ++ [outside.level + 1] := by
      rw [level_parent? houtside, List.range_succ]
    rw [activeTags_eq_distinct, activeTags_eq_distinct, hlevels, List.flatMap_append, hsame,
      ← List.append_assoc]
    exact Sight.distinct_prefix _ _

end View

/-! ## A flow inside a flow -/

/-- A dialog that waits and carries tags. -/
def Dialog.tagged (id : String) (tags : List String) : Dialog :=
  { id, tags, onBegin := fun _ => pure .waiting }

/-- The flow's own set knows another dialog by the flow's id. -/
def Dialog.flowSet : DialogSet :=
  (Table.empty.insert "flow" (.tagged "flow" ["invoices"])).insert "billing"
    (.tagged "billing" ["support", "billing"])

def View.helpdesk : View where
  own := Table.empty.insert "flow"
    { Dialog.tagged "flow" ["flow", "support"] with children := some Dialog.flowSet }

def Turn.flowing : Turn :=
  { activity := .message "c" "go"
    globalTags := ["global"]
    stack := [{ id := "flow", children := [.owning "flow", .owning "billing"] }] }

/-- Inside the flow its id means another dialog, which changes no tag of the contexts around. -/
theorem View.activeTags_firsts_flow :
    helpdesk.child? .flowing = some (helpdesk.enter Dialog.flowSet) ∧
    (helpdesk.sight .flowing).activeTags <+:
      ((helpdesk.enter Dialog.flowSet).sight .flowing).activeTags ∧
    ((helpdesk.enter Dialog.flowSet).sight .flowing).activeTags =
      ["global", "flow", "support", "invoices", "billing"] := by
  obtain ⟨htags, -, houtside⟩ := activeTags_firsts (helpdesk.enter Dialog.flowSet) .flowing
  exact ⟨rfl, houtside helpdesk rfl, htags.trans (by decide +kernel)⟩

end Colloquy
