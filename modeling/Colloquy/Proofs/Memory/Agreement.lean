import Colloquy.Proofs.Engine.Beginning
import Colloquy.Proofs.Memory.Writing
import Colloquy.Proofs.Paths.Laws

/-!
# The dialog scope reads what it writes

Reading resolves the active frame's memory in one way and writing in another. In every turn,
also one with locations that name no frame or lead back to themselves, both come to the same
frame, and a write leaves that frame the one that both come to.
-/
namespace Colloquy

theorem Location.target?_level_le {level : Nat} (l : Location) {target : Address}
    (h : l.target? level = some target) : target.level ≤ level := by
  cases l with
  | own position =>
    obtain rfl := Option.some.inj h
    exact Nat.le_refl level
  | enclosing position =>
    cases level with
    | zero => cases h
    | succ outer =>
      obtain rfl := Option.some.inj h
      exact Nat.le_succ outer

namespace Turn
variable {t t' : Turn} {level : Nat} {f : Frame} {a b : Address} {m m' : Object}

/-! ## Writing a memory -/

/-- The turn with a memory in the frame at an address. -/
def withMemory (t : Turn) (a : Address) (m : Object) : Turn :=
  t.modifyFrame a ({ · with memory := some m })

/-- The second turn is the first with another memory in the frame at an address, and no other
change: what is outside the stack stays, and so do all ids, locations and hosted stacks, and the
memory at every other address. -/
structure WrittenAt (a : Address) (t t' : Turn) : Prop where
  written : ∃ m, t' = t.withMemory a m
  outside : t' = { t with stack := t'.stack }
  frames : Stack.mapMemory (fun _ => none) t'.stack = Stack.mapMemory (fun _ => none) t.stack
  elsewhere : ∀ b, b ≠ a → (t'.frameAt? b).map Frame.memory = (t.frameAt? b).map Frame.memory

theorem mapMemory_withMemory {g : Option Object → Option Object}
    (h : ∀ f, t.frameAt? a = some f → g (some m) = g f.memory) :
    Stack.mapMemory g (t.withMemory a m).stack = Stack.mapMemory g t.stack := by
  refine Stack.mapMemory_modifyLevel fun u hu => Stack.mapMemory_modifyAt fun f hf => h f ?_
  simp [frameAt?, stackAt?, hu, hf]

theorem frameAt?_withMemory (t : Turn) (a : Address) (m : Object) :
    (t.withMemory a m).frameAt? a = (t.frameAt? a).map ({ · with memory := some m }) := by
  simp only [withMemory, modifyFrame, modifyStack, frameAt?, stackAt?,
    Stack.level?_modifyLevel]
  cases Stack.level? a.level t.stack with
  | none => rfl
  | some u => simp [Stack.at?_modifyAt]

theorem writtenAt_withMemory (t : Turn) (a : Address) (m : Object) :
    WrittenAt a t (t.withMemory a m) where
  written := ⟨m, rfl⟩
  outside := rfl
  frames := mapMemory_withMemory fun _ _ => rfl
  elsewhere b hne := by
    have hcoordinates : b.level ≠ a.level ∨ b.position ≠ a.position := by
      refine Decidable.not_and_iff_or_not.mp ?_
      rintro ⟨hlevel, hposition⟩
      cases a
      cases b
      exact hne (congr (congrArg Address.mk hlevel) hposition)
    exact Stack.memory_modifyLevel (some m) hcoordinates t.stack

theorem withMemory_withMemory (t : Turn) (a : Address) (m m' : Object) :
    (t.withMemory a m).withMemory a m' = t.withMemory a m' := by
  have hlevel (n : Nat) (change change' : Stack → Stack) (s : Stack) :
      Stack.modifyLevel change n (Stack.modifyLevel change' n s) =
        Stack.modifyLevel (change ∘ change') n s := by
    induction n generalizing s with
    | zero => rfl
    | succ n ih => cases s with
      | nil => rfl
      | cons g rest => simp [Stack.modifyLevel, ih]
  simp only [withMemory, modifyFrame, modifyStack, hlevel]
  congr 2
  funext u
  simp [Stack.modifyAt, List.modify_modify_eq, Function.comp_def]

/-! ## The holder -/

/-- The address of the active frame at a level. -/
def top (t : Turn) (level : Nat) : Address := ⟨level, t.depth level - 1⟩

theorem active?_eq_frameAt? (t : Turn) (level : Nat) :
    t.active? level = t.frameAt? (t.top level) := by
  cases hu : t.stackAt? level with
  | none => simp [active?, frameAt?, top, hu]
  | some u =>
    cases u with
    | nil => simp [active?, frameAt?, top, hu, Stack.active?, Stack.at?]
    | cons f rest =>
      simp [active?, frameAt?, top, depth, hu, Stack.active?, Stack.at?_cons]

theorem holder?_of_memory (hf : t.active? level = some f) (hmemory : f.memory.isSome) :
    t.holder? level = some (t.top level) := by
  simp [holder?, hf, hmemory, top]

theorem holder?_of_none (hf : t.active? level = some f) (hmemory : f.memory = none) :
    t.holder? level = some ((t.sharedOwner? level f).getD (t.top level)) := by
  simp [holder?, hf, hmemory, top]

theorem memory?_eq (t : Turn) (level : Nat) :
    t.memory? level = (t.holder? level).bind fun a => (t.frameAt? a).bind Frame.memory := by
  cases hf : t.active? level with
  | none => simp [memory?, holder?, hf]
  | some f =>
    have htop : t.frameAt? (t.top level) = some f := by rw [← active?_eq_frameAt?, hf]
    cases hmemory : f.memory with
    | some m =>
      rw [holder?_of_memory hf (by rw [hmemory]; rfl)]
      simp [memory?, hf, hmemory, htop]
    | none =>
      rw [holder?_of_none hf hmemory]
      cases hshared : t.sharedOwner? level f with
      | none => simp [memory?, hf, hmemory, hshared, htop]
      | some a =>
        cases hg : t.frameAt? a <;> simp [memory?, hf, hmemory, hshared, hg]

/-- What a frame shares is a frame that owns a memory, or the frame that its location names. -/
theorem sharedOwner?_cases (hf : t.active? level = some f)
    (ha : t.sharedOwner? level f = some a) :
    ∃ g, t.frameAt? a = some g ∧
      (g.memory.isSome ∨ ∃ l, f.shared = some l ∧ l.target? level = some a) := by
  obtain ⟨rest, hu⟩ := stackAt?_of_active? hf
  obtain ⟨l, hl, howner⟩ := Option.bind_eq_some_iff.mp ha
  simp only [Location.owner?, Option.bind_eq_bind, Option.bind_eq_some_iff] at howner
  obtain ⟨target, htarget, w, hw, hfound⟩ := howner
  have hle := l.target?_level_le htarget
  rw [chain_getElem? hu hle] at hw
  split at hfound
  · next hposition =>
    have hsome := Option.some.inj hfound
    cases hsearch : Stack.ownerOutward?
        (w.downFrom target.position :: ((t.chain level).take target.level).reverse) with
    | some x =>
      rw [hsearch, Option.getD_some] at hsome
      subst hsome
      obtain ⟨g, hg, hmemory⟩ := frameAt?_of_ownerOutward? hu hle hw hsearch
      exact ⟨g, hg, .inl hmemory⟩
    | none =>
      rw [hsearch, Option.getD_none] at hsome
      subst hsome
      have hlt : target.position < w.reverse.length := by simpa using hposition
      refine ⟨w.reverse[target.position], ?_, .inr ⟨l, hl, htarget⟩⟩
      simp [frameAt?, hw, Stack.at?, List.getElem?_eq_getElem hlt]
  · cases hfound

theorem exists_frame_of_holder (ha : t.holder? level = some a) :
    ∃ g, t.frameAt? a = some g := by
  cases hf : t.active? level with
  | none => simp [holder?, hf] at ha
  | some f =>
    have htop : t.frameAt? (t.top level) = some f := by rw [← active?_eq_frameAt?, hf]
    cases hmemory : f.memory with
    | some m =>
      rw [holder?_of_memory hf (by rw [hmemory]; rfl)] at ha
      exact ⟨f, Option.some.inj ha ▸ htop⟩
    | none =>
      rw [holder?_of_none hf hmemory] at ha
      have ha := Option.some.inj ha
      cases hshared : t.sharedOwner? level f with
      | none =>
        rw [hshared] at ha
        exact ⟨f, ha ▸ htop⟩
      | some x =>
        rw [hshared] at ha
        obtain rfl : x = a := ha
        obtain ⟨g, hg, -⟩ := sharedOwner?_cases hf hshared
        exact ⟨g, hg⟩

/-! ## The holder stays -/

/-- A write changes no frame's location and no stack's depth. -/
theorem active?_withMemory (hf : t.active? level = some f) (a : Address) (m : Object) :
    ∃ f', (t.withMemory a m).active? level = some f' ∧ f'.shared = f.shared ∧
      (t.withMemory a m).top level = t.top level := by
  have hframes := (writtenAt_withMemory t a m).frames
  have hlevel := congrArg (Stack.level? level) hframes
  rw [Stack.level?_mapMemory, Stack.level?_mapMemory] at hlevel
  obtain ⟨rest, hu⟩ := stackAt?_of_active? hf
  have hu' : Stack.level? level t.stack = some (f :: rest) := hu
  rw [hu', Option.map_some] at hlevel
  obtain ⟨w, hw, hsame⟩ := Option.map_eq_some_iff.mp hlevel
  have hw' : (t.withMemory a m).stackAt? level = some w := hw
  cases w with
  | nil => cases hsame
  | cons f' rest' =>
    rw [Stack.mapMemory_cons, Stack.mapMemory_cons] at hsame
    obtain ⟨hhead, htail⟩ := List.cons.inj hsame
    refine ⟨f', active?_of_stackAt? hw', ?_, ?_⟩
    · simpa using congrArg Frame.shared hhead
    · have hlength := congrArg List.length htail
      simp only [Stack.mapMemory_eq_map, List.length_map] at hlength
      simp [top, depth, hu, hw', hlength]

/-- A write where the shared memory is found, or where its location says that it would be,
leaves it the one that is found. -/
theorem sharedOwner?_withMemory (hf : t.active? level = some f) {f' : Frame}
    (hf' : (t.withMemory a m).active? level = some f') (hshared : f'.shared = f.shared)
    (ha : t.sharedOwner? level f = some a) :
    (t.withMemory a m).sharedOwner? level f' = some a := by
  obtain ⟨g, hg, hcase⟩ := sharedOwner?_cases hf ha
  rcases hcase with hmemory | ⟨l, hl, htarget⟩
  · have houtline : Stack.mapMemory (Option.map fun _ => Table.empty) (t.withMemory a m).stack =
        Stack.mapMemory (Option.map fun _ => Table.empty) t.stack := by
      refine mapMemory_withMemory fun g' hg' => ?_
      rw [hg] at hg'
      obtain rfl := Option.some.inj hg'
      obtain ⟨m', hm'⟩ := Option.isSome_iff_exists.mp hmemory
      rw [hm']
      rfl
    have hkeeps (memory : Option Object) :
        (memory.map fun _ => (Table.empty : Object)).isSome = memory.isSome := Option.isSome_map
    rw [← ha, sharedOwner?, sharedOwner?, hshared]
    congr 1
    funext l
    calc l.owner? (Stack.chain level (t.withMemory a m).stack) level
        = l.owner? (Stack.chain level (Stack.mapMemory (Option.map fun _ => Table.empty)
            (t.withMemory a m).stack)) level := by
          rw [Stack.chain_mapMemory, Location.owner?_mapMemory hkeeps]
      _ = l.owner? (Stack.chain level t.stack) level := by
          rw [houtline, Stack.chain_mapMemory, Location.owner?_mapMemory hkeeps]
  · have hle := l.target?_level_le htarget
    obtain ⟨rest, hu⟩ := stackAt?_of_active? hf'
    have hwritten : (t.withMemory a m).frameAt? a = some { g with memory := some m } := by
      rw [frameAt?_withMemory, hg]
      rfl
    obtain ⟨w, hw, hat⟩ := Option.bind_eq_some_iff.mp hwritten
    rw [sharedOwner?, hshared, hl]
    exact Location.owner?_of_memory htarget ((chain_getElem? hu hle).trans hw) hat rfl

/-- Once written to, the holder holds the memory, whatever is written to it. -/
theorem holder?_withMemory (ha : t.holder? level = some a) (m : Object) :
    (t.withMemory a m).holder? level = some a := by
  cases hf : t.active? level with
  | none => simp [holder?, hf] at ha
  | some f =>
    obtain ⟨f', hf', hshared, htop⟩ := active?_withMemory hf a m
    have hnow : (t.withMemory a m).frameAt? (t.top level) = some f' := by
      rw [← htop, ← active?_eq_frameAt?, hf']
    by_cases hself : t.top level = a
    · have hmemory : f'.memory.isSome := by
        rw [hself, frameAt?_withMemory] at hnow
        obtain ⟨g, -, rfl⟩ := Option.map_eq_some_iff.mp hnow
        rfl
      rw [holder?_of_memory hf' hmemory, htop, hself]
    · have hnone : f.memory = none := by
        refine Option.not_isSome_iff_eq_none.mp fun hsome => hself ?_
        rw [holder?_of_memory hf hsome] at ha
        exact Option.some.inj ha
      have hnone' : f'.memory = none := by
        have hsame := (writtenAt_withMemory t a m).elsewhere (t.top level) hself
        rw [hnow, ← active?_eq_frameAt?, hf, Option.map_some, Option.map_some, hnone] at hsame
        exact Option.some.inj hsame
      rw [holder?_of_none hf hnone] at ha
      have hfound : t.sharedOwner? level f = some a := by
        have ha := Option.some.inj ha
        cases howner : t.sharedOwner? level f with
        | none =>
          rw [howner] at ha
          exact absurd ha hself
        | some x =>
          rw [howner] at ha
          exact congrArg some ha
      rw [holder?_of_none hf' hnone', sharedOwner?_withMemory hf hf' hshared hfound]
      rfl

theorem memory?_withMemory (ha : t.holder? level = some a) (m : Object) :
    (t.withMemory a m).memory? level = some m := by
  obtain ⟨g, hg⟩ := exists_frame_of_holder ha
  simp [memory?_eq, holder?_withMemory ha, frameAt?_withMemory, hg]

/-! ## Opening the memory -/

theorem openMemory_of_some (ha : t.holder? level = some a) (hm : t.memory? level = some m) :
    t.openMemory level = .ok (a, m, t) := by
  rw [memory?_eq, ha, Option.bind_some] at hm
  simp [openMemory, ha, hm]

theorem openMemory_of_none (ha : t.holder? level = some a) (hm : t.memory? level = none) :
    t.openMemory level = .ok (a, .empty, t.withMemory a .empty) := by
  rw [memory?_eq, ha, Option.bind_some] at hm
  simp [openMemory, ha, hm, withMemory]

theorem exists_holder_of_active (hf : t.active? level = some f) :
    ∃ a, t.holder? level = some a := by
  cases hmemory : f.memory with
  | some m => exact ⟨_, holder?_of_memory hf (by rw [hmemory]; rfl)⟩
  | none => exact ⟨_, holder?_of_none hf hmemory⟩

/-- The memory was not there and has been opened, empty. -/
def Opened (level : Nat) (t t' : Turn) : Prop :=
  t.memory? level = none ∧ ∃ a, t.openMemory level = .ok (a, .empty, t')

/-! ## Scopes -/

/-- The turn with another object in a scope, at a level. -/
def withScope (t : Turn) (level : Nat) (m : Object) : Scope → Turn
  | .settings => t
  | .user => { t with user := m }
  | .conversation => { t with conversation := m }
  | .turn => { t with scratch := m }
  | .dialog =>
    match t.holder? level with
    | none => t
    | some a => t.withMemory a m

section Change
variable {update : Object → Except Fault (α × Object)} {scope : Scope} {x : α} {e : Fault}
  {outcome : Except Fault (α × Object)} {unchanged : Turn} {put : Object → Turn}

theorem settle_ok (h : change.settle outcome unchanged put = (.ok x, t')) :
    ∃ m, outcome = .ok (x, m) ∧ t' = put m := by
  cases outcome with
  | ok r =>
    obtain ⟨hx, ht'⟩ := Prod.mk.inj h
    obtain rfl := Except.ok.inj hx
    exact ⟨r.2, rfl, ht'.symm⟩
  | error e => cases (Prod.mk.inj h).1

theorem settle_error (h : change.settle outcome unchanged put = (.error e, t')) :
    t' = unchanged := by
  cases outcome with
  | ok r => cases (Prod.mk.inj h).1
  | error e' => exact (Prod.mk.inj h).2.symm

/-- A change that succeeds starts from what reading shows and puts its result there. -/
theorem change_ok (h : t.change level scope update = (.ok x, t')) : scope ≠ .settings ∧
    ∃ m, update ((t.scoped? level scope).getD .empty) = .ok (x, m) ∧
      t' = t.withScope level m scope ∧ t'.scoped? level scope = some m := by
  cases scope with
  | settings => cases (Prod.mk.inj h).1
  | user =>
    obtain ⟨m, hm, rfl⟩ := settle_ok h
    exact ⟨Scope.noConfusion, m, hm, rfl, rfl⟩
  | conversation =>
    obtain ⟨m, hm, rfl⟩ := settle_ok h
    exact ⟨Scope.noConfusion, m, hm, rfl, rfl⟩
  | turn =>
    obtain ⟨m, hm, rfl⟩ := settle_ok h
    exact ⟨Scope.noConfusion, m, hm, rfl, rfl⟩
  | dialog =>
    refine ⟨Scope.noConfusion, ?_⟩
    cases ha : t.holder? level with
    | none => simp [Turn.change, openMemory, ha] at h
    | some a =>
      cases hm : t.memory? level with
      | some m =>
        simp only [Turn.change, openMemory_of_some ha hm] at h
        obtain ⟨m', hm', rfl⟩ := settle_ok h
        exact ⟨m', by simpa [scoped?, hm] using hm', by simp [withScope, ha, withMemory],
          memory?_withMemory ha m'⟩
      | none =>
        simp only [Turn.change, openMemory_of_none ha hm] at h
        obtain ⟨m', hm', rfl⟩ := settle_ok h
        have honce : (t.withMemory a .empty).modifyFrame a ({ · with memory := some m' }) =
            t.withMemory a m' := withMemory_withMemory t a .empty m'
        rw [honce]
        exact ⟨m', by simpa [scoped?, hm] using hm', by simp [withScope, ha],
          memory?_withMemory ha m'⟩

theorem change_error (h : t.change level scope update = (.error e, t')) :
    t' = t ∨ Opened level t t' := by
  cases scope with
  | settings => exact .inl (Prod.mk.inj h).2.symm
  | user => exact .inl (settle_error h)
  | conversation => exact .inl (settle_error h)
  | turn => exact .inl (settle_error h)
  | dialog =>
    cases ha : t.holder? level with
    | none =>
      simp only [Turn.change, openMemory, ha] at h
      exact .inl (Prod.mk.inj h).2.symm
    | some a =>
      cases hm : t.memory? level with
      | some m =>
        simp only [Turn.change, openMemory_of_some ha hm] at h
        exact .inl (settle_error h)
      | none =>
        have hopen := openMemory_of_none ha hm
        simp only [Turn.change, hopen] at h
        rw [settle_error h]
        exact .inr ⟨hm, a, hopen⟩

theorem change_settings (t : Turn) (level : Nat) (scope : Scope)
    (update : Object → Except Fault (α × Object)) :
    (t.change level scope update).2.settings = t.settings := by
  cases h : t.change level scope update with
  | mk outcome t' =>
    cases outcome with
    | ok x =>
      obtain ⟨-, m, -, rfl, -⟩ := change_ok h
      cases scope with
      | dialog =>
        simp only [withScope]
        split <;> rfl
      | _ => rfl
    | error e =>
      rcases change_error h with rfl | ⟨hm, a, hopen⟩
      · rfl
      · cases ha : t.holder? level with
        | none => simp [openMemory, ha] at hopen
        | some b =>
          rw [openMemory_of_none ha hm] at hopen
          obtain ⟨-, -, rfl⟩ := hopen
          rfl

end Change

theorem set_settings (t : Turn) (level : Nat) (path : String) (value : Json) :
    (t.set level path value).2.settings = t.settings := by
  rw [set]
  split
  · rfl
  · exact change_settings t level _ _

theorem delete_settings (t : Turn) (level : Nat) (path : String) :
    (t.delete level path).2.settings = t.settings := by
  rw [delete]
  split
  · rfl
  · split
    · rfl
    · exact change_settings t level _ _

theorem set_ok {path : String} {value : Json} (h : t.set level path value = (.ok (), t')) :
    ∃ p m, Path.parse path = .ok p ∧ p.scope ≠ .settings ∧
      p.write value ((t.scoped? level p.scope).getD .empty) = .ok m ∧
      t' = t.withScope level m p.scope ∧ t'.scoped? level p.scope = some m := by
  rw [set] at h
  split at h
  · cases (Prod.mk.inj h).1
  · next p hp =>
    obtain ⟨hscope, m, hm, ht', hread⟩ := change_ok h
    refine ⟨p, m, hp, hscope, ?_, ht', hread⟩
    cases hwrite : p.write value ((t.scoped? level p.scope).getD .empty) with
    | ok m' =>
      rw [hwrite] at hm
      obtain rfl : m' = m := (Prod.mk.inj (Except.ok.inj hm)).2
      rfl
    | error e =>
      rw [hwrite] at hm
      cases hm

theorem set_error {path : String} {value : Json} {e : Fault}
    (h : t.set level path value = (.error e, t')) : t' = t ∨ Opened level t t' := by
  rw [set] at h
  split at h
  · exact .inl (Prod.mk.inj h).2.symm
  · exact change_error h

theorem delete_error {path : String} {e : Fault} (h : t.delete level path = (.error e, t')) :
    t' = t ∨ Opened level t t' := by
  rw [delete] at h
  split at h
  · exact .inl (Prod.mk.inj h).2.symm
  · split at h
    · cases (Prod.mk.inj h).1
    · exact change_error h

/-- In every turn, whatever its frames share, reading and writing the dialog scope of an
active frame come to the same frame. A memory that is read is opened as it is; one that is
not is opened empty, in a frame that had none; and whatever is written to that frame, it is
the one that is read and opened again. So a value that has been set is there for all
spellings of its path, and nothing but one object has changed for it: that of a scope outside
the stack, or the memory of one frame. What fails leaves at most an empty memory behind, and
settings stay as they are. -/
theorem scopes_agree (t : Turn) (level : Nat) :
    (∀ f, t.active? level = some f → ∃ a, t.holder? level = some a ∧
      (∀ m, t.memory? level = some m → t.openMemory level = .ok (a, m, t)) ∧
      (t.memory? level = none → (t.frameAt? a).map Frame.memory = some none ∧
        t.openMemory level = .ok (a, .empty, t.withMemory a .empty)) ∧
      ∀ m, WrittenAt a t (t.withMemory a m) ∧
        (t.withMemory a m).memory? level = some m ∧
        (t.withMemory a m).openMemory level = .ok (a, m, t.withMemory a m)) ∧
    (∀ path value t', t.set level path value = (.ok (), t') → ∃ p m,
      Path.parse path = .ok p ∧ p.scope ≠ .settings ∧
      p.write value ((t.scoped? level p.scope).getD .empty) = .ok m ∧
      t' = t.withScope level m p.scope ∧
      ∀ path' q, Path.parse path' = .ok q → q.scope = p.scope → q.keys = p.keys →
        t'.get level path' = .ok (some value)) ∧
    (∀ path value e t', t.set level path value = (.error e, t') →
      t' = t ∨ Opened level t t') ∧
    (∀ path e t', t.delete level path = (.error e, t') → t' = t ∨ Opened level t t') ∧
    ∀ path value, (t.set level path value).2.settings = t.settings ∧
      (t.delete level path).2.settings = t.settings := by
  refine ⟨fun f hf => ?_, fun path value t' h => ?_, fun path value e t' => set_error,
    fun path e t' => delete_error,
    fun path value => ⟨set_settings t level path value, delete_settings t level path⟩⟩
  · obtain ⟨a, ha⟩ := exists_holder_of_active hf
    refine ⟨a, ha, fun m hm => openMemory_of_some ha hm, fun hm => ⟨?_, openMemory_of_none ha hm⟩,
      fun m => ⟨writtenAt_withMemory t a m, memory?_withMemory ha m,
        openMemory_of_some (holder?_withMemory ha m) (memory?_withMemory ha m)⟩⟩
    obtain ⟨g, hg⟩ := exists_frame_of_holder ha
    rw [memory?_eq, ha, Option.bind_some, hg, Option.bind_some] at hm
    rw [hg, Option.map_some, hm]
  · obtain ⟨p, m, hp, hscope, hwrite, ht', hread⟩ := set_ok h
    refine ⟨p, m, hp, hscope, hwrite, ht', fun path' q hq hsame hkeys => ?_⟩
    have hvalue : q.read m = some value := Path.read_of_write hwrite hkeys
    rw [get, hq]
    change Except.ok ((t'.scoped? level q.scope).bind q.read) = .ok (some value)
    rw [hsame, hread, Option.bind_some, hvalue]

/-- A frame whose location leads back to itself has no memory to read. One is opened in it,
and what is set there is read under another spelling. -/
theorem scopes_agree_circular :
    let t : Turn := { activity := .message "c" "go", stack := [.sharing "order" (.own 0)] }
    t.memory? 0 = none ∧
    t.openMemory 0 = .ok (⟨0, 0⟩, .empty, t.withMemory ⟨0, 0⟩ .empty) ∧
    ∃ t', t.set 0 "size" (.bool true) = (.ok (), t') ∧
      t'.get 0 " dialog.size" = .ok (some (.bool true)) := by
  intro t
  obtain ⟨hopens, hsets, -⟩ := scopes_agree t 0
  obtain ⟨a, ha, -, hopen, -⟩ := hopens (.sharing "order" (.own 0)) rfl
  obtain rfl : (⟨0, 0⟩ : Address) = a := Option.some.inj ha
  have hplain : Path.parse "size" = .ok ⟨"size", .dialog, ["size"]⟩ :=
    Path.parse_eq (by decide +kernel)
  have hspelling : Path.parse " dialog.size" = .ok ⟨" dialog.size", .dialog, ["size"]⟩ :=
    Path.parse_eq (by decide +kernel)
  have hset : t.set 0 "size" (.bool true) = (.ok (), (t.set 0 "size" (.bool true)).2) := by
    simp only [set, hplain]
    rfl
  obtain ⟨p, m, hp, -, -, -, hread⟩ := hsets "size" (.bool true) _ hset
  obtain rfl := Except.ok.inj (hplain.symm.trans hp)
  exact ⟨rfl, (hopen rfl).2, _, hset, hread " dialog.size" _ hspelling rfl rfl⟩

end Turn
end Colloquy
