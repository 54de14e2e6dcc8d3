import Colloquy.Proofs.Demo.Conversations
import Colloquy.Proofs.Settings.Variables

/-!
# The demo conversation under settings from variables

A variable's value keeps its type if it is a boolean or a number in JSON. The demo
conversation greets in the company's name, for which it wants a text. So it can begin unless
the last variable that names the company has such a value; then every turn fails.
-/
namespace Colloquy

namespace Console.Demo
open Engine Eval

variable {host : Host} {r : Runner (Table Snapshot)} {p : Progress (Table Snapshot)}
  {vars : List (String × String)} {raw : String}

/-- The last variable that names the company, if there is one, gives it a text. -/
theorem greets_ofVariables
    (h : ∀ raw, Settings.last? "companyName" vars = some raw → ¬ Settings.Retyped raw) :
    Greets (Settings.ofVariables vars) := by
  intro value hvalue
  rw [Settings.find?_ofVariables] at hvalue
  obtain ⟨raw, hraw, rfl⟩ := Option.map_eq_some_iff.mp hvalue
  exact ⟨raw, Settings.value_of_not_retyped (h raw hraw)⟩

theorem company_ofVariables (hraw : Settings.last? "companyName" vars = some raw) :
    (Settings.ofVariables vars).find? "companyName" = some (Settings.value raw) := by
  rw [Settings.find?_ofVariables, hraw]
  rfl

/-! ## Without a text for the company's name -/

/-- A conversation cannot begin in a company's name that is no text. -/
theorem respond_malformed {fuel : Nat} {value : Json} (h : host.RunsDemo) (hfuel : 5 ≤ fuel)
    (hcompany : host.settings.find? "companyName" = some value) (htext : value.string? = none)
    (a : Activity) :
    ∃ journal, host.respond fuel a {} = some { outcome := .error .malformed, journal } := by
  obtain ⟨k, rfl⟩ := Nat.exists_eq_add_of_le' hfuel
  have hstack : ({} : Snapshot).stack? = some [] := rfl
  let t := Turn.opening a host.settings .empty (Table.empty.erase Turn.stackKey) []
  obtain ⟨t', hbegin⟩ := root_malformed (t := t) (k := k + 3) hcompany htext
  exact Host.respond_of_answers hstack a (answers_runStack_idle h hbegin)

/-- Nothing is under way, and nothing is kept. -/
structure Untouched (p : Progress (Table Snapshot)) : Prop where
  idle : p.Idle
  kept : p.kept = .empty

theorem runTurn_malformed (h : r.RunsDemo) {value : Json}
    (hcompany : r.host.settings.find? "companyName" = some value)
    (htext : value.string? = none) (hp : Untouched p) (a : Activity) :
    Untouched (r.runTurn a p).2 ∧ ∃ journal,
      (r.runTurn a p).2.result? (r.runTurn a p).1 = some (.error .malformed, journal) := by
  obtain ⟨journal, hrespond⟩ := respond_malformed h.host h.fuel hcompany htext a
  have hhandle : r.host.handle r.fuel r.store a p.kept =
      some (.error .malformed, journal, .empty) := by
    rw [h.store, hp.kept]
    exact r.host.handle_memory_error hrespond
  have hended : (r.runTurn a p).2.EndedAs (r.runTurn a p).1 (.error .malformed, journal) .empty :=
    r.runTurn_idle hp.idle hhandle
  exact ⟨⟨hended.idle, hended.kept⟩, journal, hended.result⟩

theorem runEach_untouched (h : r.RunsDemo) {value : Json}
    (hcompany : r.host.settings.find? "companyName" = some value)
    (htext : value.string? = none) (hp : Untouched p) (as : List Activity) :
    Untouched (r.runEach as p) := by
  induction as generalizing p with
  | nil => exact hp
  | cons a rest ih => exact ih (runTurn_malformed h hcompany htext hp a).1

/-- Under settings from variables a turn of the demo conversation answers exactly if the last
variable that names the company, if there is one, has a value that is no boolean or number in
JSON. Otherwise it fails, like all of the turns before it, and nothing is kept. -/
theorem runTurn_ofVariables (h : r.RunsDemo)
    (hsettings : r.host.settings = Settings.ofVariables vars) (earlier : List Activity)
    (a : Activity) :
    let next := r.runTurn a (r.runEach earlier { kept := .empty })
    ((∃ outcome journal, next.2.result? next.1 = some (.ok outcome, journal)) ↔
      ∀ raw, Settings.last? "companyName" vars = some raw → ¬ Settings.Retyped raw) ∧
    ∀ raw, Settings.last? "companyName" vars = some raw → Settings.Retyped raw →
      (∃ journal, next.2.result? next.1 = some (.error .malformed, journal)) ∧
        next.2.kept = .empty := by
  intro next
  have hfails (raw : String) (hraw : Settings.last? "companyName" vars = some raw)
      (hretyped : Settings.Retyped raw) :
      (∃ journal, next.2.result? next.1 = some (.error .malformed, journal)) ∧
        next.2.kept = .empty := by
    have hcompany : r.host.settings.find? "companyName" = some (Settings.value raw) := by
      rw [hsettings, company_ofVariables hraw]
    have htext := Settings.value_of_retyped hretyped
    have hbefore := runEach_untouched h hcompany htext
      ⟨Progress.idle_initial _, rfl⟩ earlier
    obtain ⟨hafter, hresult⟩ := runTurn_malformed h hcompany htext hbefore a
    exact ⟨hresult, hafter.kept⟩
  refine ⟨⟨?_, fun husable => ?_⟩, hfails⟩
  · rintro ⟨outcome, journal, hok⟩ raw hraw hretyped
    obtain ⟨⟨journal', herror⟩, -⟩ := hfails raw hraw hretyped
    rw [hok] at herror
    cases herror
  · have hgreets : Greets r.host.settings := hsettings ▸ greets_ofVariables husable
    have hresting := runEach_resting h hgreets resting_initial earlier
    obtain ⟨-, outcome, snapshot, journal, hresult, -, -⟩ :=
      runTurn_reported h hgreets hresting a
    exact ⟨outcome, journal, hresult⟩

/-- Runs the demo conversation under settings from variables. -/
def configured (vars : List (String × String)) : Runner (Table Snapshot) :=
  { demonstration with
    host := { demonstration.host with settings := Settings.ofVariables vars } }

/-- In the name of Acme the conversation begins. -/
theorem runTurn_ofVariables_acme :
    let next := (configured [("PARLEY_SETTING_COMPANY_NAME", "Acme")]).runTurn
      (.message "console" "hi") { kept := .empty }
    ∃ outcome journal, next.2.result? next.1 = some (.ok outcome, journal) := by
  have hlast : Settings.last? "companyName" [("PARLEY_SETTING_COMPANY_NAME", "Acme")] =
      some "Acme" := by decide +kernel
  have hparse : Json.parse? "Acme" = none := by decide +kernel
  have hturn := runTurn_ofVariables (r := configured [("PARLEY_SETTING_COMPANY_NAME", "Acme")])
    ⟨⟨rfl, rfl⟩, rfl, Nat.le_refl 5⟩ rfl [] (.message "console" "hi")
  refine hturn.1.mpr fun raw hraw hretyped => ?_
  obtain rfl : "Acme" = raw := Option.some.inj (hlast.symm.trans hraw)
  rcases hretyped with ⟨b, hb⟩ | ⟨n, hn⟩
  · rw [hparse] at hb
    cases hb
  · rw [hparse] at hn
    cases hn

/-- In the name of 42 it does not. -/
theorem runTurn_fails_for_number :
    let next := (configured [("PARLEY_SETTING_COMPANY_NAME", "42")]).runTurn
      (.message "console" "hi") { kept := .empty }
    ¬ ∃ outcome journal, next.2.result? next.1 = some (.ok outcome, journal) := by
  intro next
  have hfailed : (next.2.result? next.1).map (fun record => record.1.isOk) = some false := by
    decide +kernel
  rintro ⟨outcome, journal, hok⟩
  rw [hok] at hfailed
  cases hfailed

end Console.Demo
end Colloquy
