import Colloquy.Engine
import Colloquy.Proofs.Shape

/-!
# The frames that a cancellation meets

Seen from a context, the frames of its own stack from the top down come first, then
those of the stacks around it. A cancellation ends them in this order. What it enters
in the journal for one of them is the offering of the event and the end of the frame;
before a container ends, the frames that it still hosts do.
-/
namespace Colloquy

namespace Stack

/-- The frames of the stack at a level from the top down, with their level, then those
of the enclosing stacks as they are without what was further in. -/
def lineup : Nat → Stack → List (Nat × Frame)
  | 0, s => s.map (0, ·)
  | n + 1, s => ((level? (n + 1) s).getD []).map (n + 1, ·) ++ lineup n (put (n + 1) [] s)

theorem lineup_eq_append {n : Nat} {s u : Stack} (h : level? n s = some u) :
    lineup n s = u.map (n, ·) ++ lineup n (put n [] s) := by
  cases n with
  | zero =>
    obtain rfl := Option.some.inj h
    simp [lineup]
  | succ n => simp [lineup, h, level?_put h]

theorem lineup_eq_cons {n : Nat} {s rest : Stack} {f : Frame}
    (h : level? n s = some (f :: rest)) : lineup n s = (n, f) :: lineup n (put n rest s) := by
  rw [lineup_eq_append h, lineup_eq_append (level?_put h rest), put_put]
  rfl

/-- What holds of a lineup holds of its first frame and of the rest. -/
theorem forall_lineup {n : Nat} {s rest : Stack} {f : Frame} {P : Nat → Frame → Prop}
    (h : level? n s = some (f :: rest)) :
    (∀ level g, (level, g) ∈ lineup n s → P level g) ↔
      P n f ∧ ∀ level g, (level, g) ∈ lineup n (put n rest s) → P level g := by
  simp [lineup_eq_cons h, or_imp, forall_and]

/-- Where nothing runs, the lineup begins further out. -/
theorem lineup_succ {n : Nat} {s : Stack} (h : (level? (n + 1) s).getD [] = []) :
    lineup (n + 1) s = lineup n s := by
  have hsame : put (n + 1) [] s = s := by
    cases hlevel : level? (n + 1) s with
    | none => exact put_of_none hlevel []
    | some u =>
      obtain rfl : u = [] := by simpa [hlevel] using h
      exact put_self hlevel
  rw [lineup, h, hsame]
  rfl

/-- Around a hosted stack stands first the frame that hosts it, without what it hosted. -/
theorem lineup_outside {n : Nat} {s rest : Stack} {f : Frame}
    (h : level? n s = some (f :: rest)) : lineup (n + 1) (put (n + 1) [] s) =
      (n, { f with children := [] }) :: lineup n (put n rest s) := by
  have hempty := level?_put (level?_succ h) []
  rw [lineup_succ (by simp [hempty]), put_succ h, lineup_eq_cons (level?_put h _), put_put]

theorem level_le_of_mem_lineup {n level : Nat} {f : Frame} {s : Stack}
    (h : (level, f) ∈ lineup n s) : level ≤ n := by
  induction n generalizing s with
  | zero =>
    have hzero : 0 = level := by
      obtain ⟨g, -, heq⟩ := List.mem_map.mp h
      exact (Prod.mk.inj heq).1
    omega
  | succ n ih =>
    rcases List.mem_append.mp h with hown | houter
    · obtain ⟨g, -, heq⟩ := List.mem_map.mp hown
      have hlevel := (Prod.mk.inj heq).1
      omega
    · have hle := ih houter
      omega

/-- A lineup leaves out nothing of the stack. -/
theorem lineup_injective {n : Nat} {s s' : Stack} (h : lineup n s = lineup n s') : s = s' := by
  induction n generalizing s s' with
  | zero => exact (List.map_inj_right fun _ _ heq => (Prod.mk.inj heq).2).mp h
  | succ n ih =>
    have hown (s : Stack) : (lineup (n + 1) s).filter (fun e => e.1 = n + 1) =
        ((level? (n + 1) s).getD []).map (n + 1, ·) := by
      have houter : (lineup n (put (n + 1) [] s)).filter (fun e => e.1 = n + 1) = [] := by
        rw [List.filter_eq_nil_iff]
        rintro ⟨level, f⟩ hmem hlevel
        have hle := level_le_of_mem_lineup hmem
        have heq : level = n + 1 := of_decide_eq_true hlevel
        omega
      rw [lineup, List.filter_append, houter, List.append_nil, List.filter_eq_self]
      simp
    have hframes : (level? (n + 1) s).getD [] = (level? (n + 1) s').getD [] := by
      have hmap := (hown s).symm.trans ((congrArg _ h).trans (hown s'))
      exact (List.map_inj_right fun _ _ heq => (Prod.mk.inj heq).2).mp hmap
    have hput : put (n + 1) [] s = put (n + 1) [] s' := by
      rw [lineup, lineup, hframes] at h
      exact ih (List.append_cancel_left h)
    have hsome : (level? (n + 1) s).isSome = (level? (n + 1) s').isSome := by
      have hlevel := congrArg (fun u => (level? (n + 1) u).isSome) hput
      simpa [put, level?_modifyLevel] using hlevel
    cases hs : level? (n + 1) s with
    | none =>
      have hs' : level? (n + 1) s' = none := by simpa [hs] using hsome.symm
      rw [put_of_none hs, put_of_none hs'] at hput
      exact hput
    | some u =>
      obtain ⟨u', hs'⟩ := Option.isSome_iff_exists.mp (hsome.symm.trans (by simp [hs]))
      obtain rfl : u = u' := by simpa [hs, hs'] using hframes
      have hback := congrArg (put (n + 1) u) hput
      rwa [put_put, put_put, put_self hs, put_self hs'] at hback

/-- The frames of a lineup are all there is, counted from the level of the first. -/
def Remains : List (Nat × Frame) → Stack → Prop
  | [], s => s = []
  | (n, f) :: rest, s => lineup n s = (n, f) :: rest

theorem Remains.unique {l : List (Nat × Frame)} {s s' : Stack} (h : Remains l s)
    (h' : Remains l s') : s = s' := by
  cases l with
  | nil => exact Eq.trans h (Eq.symm h')
  | cons first rest => exact lineup_injective (Eq.trans h (Eq.symm h'))

end Stack

/-! ## Entries -/

/-- The call of a dialog's hook from a view, in the turn it finds. -/
abbrev HookCall.of (v : View) (d : Dialog) (turn : Turn) (hook : Hook) : HookCall :=
  { dialog := d.id, traced := d.traced, level := v.level, turn, hook }

mutual
/-- The entry for the end of a frame by a cancellation: its dialog is told once, while
the frame is active and first in the lineup, before the rest. A container meanwhile
ends the frames that it hosts. -/
inductive Ends : View → Frame → List (Nat × Frame) → Entry → Prop
  | leaf {v : View} {f : Frame} {rest : List (Nat × Frame)} {d : Dialog} {turn : Turn}
      {during : List Entry} (hd : v.find? f.id = some d) (hleaf : d.children = none)
      (hturn : Stack.lineup v.level turn.shape = (v.level, f) :: rest) :
      Ends v f rest (.called (.of v d turn (.close .cancelled)) (.ok ()) during)
  | container {v : View} {f : Frame} {rest : List (Nat × Frame)} {d : Dialog} {turn : Turn}
      {hosted : DialogSet} {during : List Entry} (hd : v.find? f.id = some d)
      (hset : d.children = some hosted)
      (hturn : Stack.lineup v.level turn.shape = (v.level, f) :: rest)
      (hframes : EndsAll (v.enter hosted) f.children
        ((v.level, { f with children := [] }) :: rest) during) :
      Ends v f rest (.called (.of v d turn (.close .cancelled)) (.ok ()) during)

/-- The entries for the ends of frames of one stack, from the top down. -/
inductive EndsAll : View → List Frame → List (Nat × Frame) → List Entry → Prop
  | nil {v : View} {rest : List (Nat × Frame)} : EndsAll v [] rest []
  | cons {v : View} {f : Frame} {below : List Frame} {rest : List (Nat × Frame)} {entry : Entry}
      {entries : List Entry} (hend : Ends v f (below.map (v.level, ·) ++ rest) entry)
      (hbelow : EndsAll v below rest entries) : EndsAll v (f :: below) rest (entry :: entries)
end

/-- The entries for offering an event to a frame: its dialog has two chances, while the
frame is first in the lineup, before the rest, and what it answers last counts. -/
inductive Offered (event : Event) (v : View) (f : Frame) (rest : List (Nat × Frame)) :
    Bool → List Entry → Prop
  | before {d : Dialog} {turn : Turn} {during : List Entry} (hd : v.find? f.id = some d)
      (hturn : Stack.lineup v.level turn.shape = (v.level, f) :: rest) :
      Offered event v f rest true [.called (.of v d turn (.before event)) (.ok true) during]
  | after {d : Dialog} {turn turn' : Turn} {during during' : List Entry} {handled : Bool}
      (hd : v.find? f.id = some d)
      (hturn : Stack.lineup v.level turn.shape = (v.level, f) :: rest)
      (hturn' : Stack.lineup v.level turn'.shape = (v.level, f) :: rest) :
      Offered event v f rest handled [
        .called (.of v d turn (.before event)) (.ok false) during,
        .called (.of v d turn' (.after event)) (.ok handled) during']

/-- The entries of a cancellation along a lineup, and what of the lineup is left. Until
one handles the event each frame is ended, and but for a first one that is not to be
offered the event, each is offered it before. -/
inductive Cancels (event : Event) (v : View) :
    Bool → List (Nat × Frame) → List Entry → List (Nat × Frame) → Prop
  | done {offered : Bool} : Cancels event v offered [] [] []
  | kept {level : Nat} {f : Frame} {rest : List (Nat × Frame)} {entries : List Entry}
      (hoffer : Offered event (v.atLevel level) f rest true entries) :
      Cancels event v true ((level, f) :: rest) entries ((level, f) :: rest)
  | ended {offered : Bool} {level : Nat} {f : Frame} {rest remaining : List (Nat × Frame)}
      {entry : Entry} {entries more : List Entry}
      (hoffer : if offered then Offered event (v.atLevel level) f rest false entries
        else entries = [])
      (hend : Ends (v.atLevel level) f rest entry)
      (hrest : Cancels event v true rest more remaining) :
      Cancels event v offered ((level, f) :: rest) (entries ++ entry :: more) remaining

/-- What is first, and then the others, by their numbers. -/
def ahead (first : α) (others : Nat → α) : Nat → α
  | 0 => first
  | i + 1 => others i

@[simp] theorem ahead_zero (first : α) (others : Nat → α) : ahead first others 0 = first := rfl

@[simp] theorem ahead_succ (first : α) (others : Nat → α) (i : Nat) :
    ahead first others (i + 1) = others i := rfl

/-- Read by the numbers of the frames: those before a certain one are ended, each with
one entry, that one handles the event, and all up to it are offered the event once, the
first of the lineup only if it is to be. -/
theorem Cancels.exists_count {event : Event} {v : View} {offered : Bool}
    {lineup remaining : List (Nat × Frame)} {entries : List Entry}
    (h : Cancels event v offered lineup entries remaining) :
    ∃ (k : Nat) (offers : Nat → List Entry) (ends : Nat → Entry),
      k ≤ lineup.length ∧ remaining = lineup.drop k ∧
      entries = ((List.range k).flatMap fun i => offers i ++ [ends i]) ++ offers k ∧
      (∀ i level f, i < k → lineup[i]? = some (level, f) →
        Ends (v.atLevel level) f (lineup.drop (i + 1)) (ends i)) ∧
      (∀ i level f, i ≤ k → (offered = true ∨ 0 < i) → lineup[i]? = some (level, f) →
        Offered event (v.atLevel level) f (lineup.drop (i + 1)) (decide (i = k)) (offers i)) ∧
      (k = lineup.length → offers k = []) ∧
      (offered = false → offers 0 = [] ∧ (0 < lineup.length → 0 < k)) := by
  induction h with
  | done =>
    refine ⟨0, fun _ => [], fun _ => .noted .null, ?_⟩
    simp
  | @kept level f rest entries hoffer =>
    refine ⟨0, fun _ => entries, fun _ => .noted .null, ?_⟩
    refine ⟨Nat.zero_le _, rfl, rfl, fun i _ _ hi => absurd hi (Nat.not_lt_zero i), ?_, ?_, ?_⟩
    · intro i level' f' hi _ hf
      obtain rfl : i = 0 := by omega
      obtain ⟨rfl, rfl⟩ : level = level' ∧ f = f' := by simpa using hf
      simpa using hoffer
    · intro hlength
      simp at hlength
    · intro hfalse
      cases hfalse
  | @ended offered level f rest remaining entry entries more hoffer hend _ ih =>
    obtain ⟨k, offers, ends, hk, hremaining, hmore, hends, hoffers, hlast, -⟩ := ih
    refine ⟨k + 1, ahead entries offers, ahead entry ends, ?_⟩
    refine ⟨by simpa using hk, hremaining, ?_, ?_, ?_, ?_, ?_⟩
    · rw [List.range_succ_eq_map, List.flatMap_cons, List.flatMap_map, hmore]
      simp
    · intro i level' f' hi hf
      cases i with
      | zero =>
        obtain ⟨rfl, rfl⟩ : level = level' ∧ f = f' := by simpa using hf
        exact hend
      | succ i => exact hends i level' f' (by omega) (by simpa using hf)
    · intro i level' f' hi hoffered hf
      cases i with
      | zero =>
        obtain ⟨rfl, rfl⟩ : level = level' ∧ f = f' := by simpa using hf
        have htrue : offered = true := by simpa using hoffered
        simpa [htrue] using hoffer
      | succ i =>
        have hnext := hoffers i level' f' (by omega) (.inl rfl) (by simpa using hf)
        simpa using hnext
    · intro hlength
      exact hlast (by simpa using hlength)
    · intro hfalse
      rw [hfalse] at hoffer
      exact ⟨by simpa using hoffer, fun _ => Nat.succ_pos k⟩

end Colloquy
