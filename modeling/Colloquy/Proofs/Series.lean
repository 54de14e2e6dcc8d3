import Colloquy.Proofs.Engine.Fuel

/-!
# Turns one after another

A series of turns is handled in its order, each over what the turn before it left in
the store. With enough fuel for each of its turns a series has one answer.
-/
namespace Colloquy

/-- What a turn came to and what it wrote down. -/
abbrev Record := Except Fault Outcome × List Entry

namespace Host
variable {σ : Type} (h : Host)

/-- Handles turns one after another; `none` if one of them wants more fuel. -/
def handleAll (fuel : Nat) (store : Store σ) : List Activity → σ → Option (List Record × σ)
  | [], kept => some ([], kept)
  | a :: rest, kept =>
    match h.handle fuel store a kept with
    | none => none
    | some (outcome, journal, kept) =>
      (handleAll fuel store rest kept).map fun (results, final) =>
        ((outcome, journal) :: results, final)

variable {store : Store σ} {fuel fuel' : Nat}

theorem handleAll_append {as : List Activity} {kept middle final : σ} {results more : List Record}
    {bs : List Activity} (has : h.handleAll fuel store as kept = some (results, middle))
    (hbs : h.handleAll fuel store bs middle = some (more, final)) :
    h.handleAll fuel store (as ++ bs) kept = some (results ++ more, final) := by
  induction as generalizing kept results with
  | nil =>
    obtain ⟨rfl, rfl⟩ : [] = results ∧ kept = middle := by simpa [handleAll] using has
    exact hbs
  | cons a rest ih =>
    rw [List.cons_append, handleAll]
    rw [handleAll] at has
    cases hhandle : h.handle fuel store a kept with
    | none => simp [hhandle] at has
    | some answer =>
      obtain ⟨outcome, journal, next⟩ := answer
      simp only [hhandle] at has
      obtain ⟨⟨others, _⟩, hrest, hresults⟩ := Option.map_eq_some_iff.mp has
      obtain ⟨rfl, rfl⟩ := Prod.mk.inj hresults
      simp [ih hrest]

theorem handleAll_mono (hfuel : fuel ≤ fuel') {as : List Activity} {kept final : σ}
    {results : List Record} (has : h.handleAll fuel store as kept = some (results, final)) :
    h.handleAll fuel' store as kept = some (results, final) := by
  induction as generalizing kept results with
  | nil => exact has
  | cons a rest ih =>
    rw [handleAll] at has ⊢
    cases hhandle : h.handle fuel store a kept with
    | none => simp [hhandle] at has
    | some answer =>
      obtain ⟨outcome, journal, next⟩ := answer
      simp only [hhandle] at has
      obtain ⟨⟨others, _⟩, hrest, hresults⟩ := Option.map_eq_some_iff.mp has
      obtain ⟨rfl, rfl⟩ := Prod.mk.inj hresults
      simp [h.handle_mono hfuel hhandle, ih hrest]

/-- One more turn may be given fuel of its own. -/
theorem handleAll_snoc {as : List Activity} {a : Activity} {kept middle final : σ}
    {results : List Record} {outcome : Except Fault Outcome} {journal : List Entry}
    (has : h.handleAll fuel store as kept = some (results, middle))
    (ha : h.handle fuel' store a middle = some (outcome, journal, final)) :
    h.handleAll (max fuel fuel') store (as ++ [a]) kept =
      some (results ++ [(outcome, journal)], final) := by
  refine h.handleAll_append (h.handleAll_mono (by omega) has) ?_
  simp [handleAll, h.handle_mono (Nat.le_max_right fuel fuel') ha]

/-! ## Over the store in memory -/

variable {a : Activity} {kept : Table Snapshot} {journal : List Entry}

theorem handle_memory_ok {outcome : Outcome} {snapshot : Snapshot}
    (hr : h.respond fuel a ((kept.find? a.conversation).getD {}) =
      some { outcome := .ok (outcome, snapshot), journal }) :
    h.handle fuel .memory a kept =
      some (.ok outcome, journal, kept.insert a.conversation snapshot) := by
  simp only [handle, Store.memory_load, hr, Option.map_some, Store.memory_save]
  rfl

theorem handle_memory_error {e : Fault}
    (hr : h.respond fuel a ((kept.find? a.conversation).getD {}) =
      some { outcome := .error e, journal }) :
    h.handle fuel .memory a kept = some (.error e, journal, kept) := by
  simp only [handle, Store.memory_load, hr, Option.map_some]

end Host
end Colloquy
