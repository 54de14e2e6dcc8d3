import Colloquy.Fault
import Colloquy.Snapshot

/-!
# State stores

A store finds and keeps the snapshots of conversations. Its contents are a value
of their own, so that what a turn did to a store can be compared with what was
there before.
-/
namespace Colloquy

structure Store (σ : Type) where
  load : String → σ → Except Fault (Option Snapshot) × σ
  save : String → Snapshot → σ → Except Fault Unit × σ

namespace Store

/-- Keeps the last snapshot of every conversation. -/
def memory : Store (Table Snapshot) where
  load conversation kept := (.ok (kept.find? conversation), kept)
  save conversation snapshot kept := (.ok (), kept.insert conversation snapshot)

/-- Finds what is there and refuses to keep anything. -/
def readOnly (reason : String) : Store (Table Snapshot) where
  load conversation kept := (.ok (kept.find? conversation), kept)
  save _ _ kept := (.error (.infrastructure reason), kept)

/-- Finds nothing and keeps nothing. -/
def blank : Store σ where
  load _ kept := (.ok none, kept)
  save _ _ kept := (.ok (), kept)

/-- Cannot be reached. -/
def failing (reason : String) : Store σ where
  load _ kept := (.error (.infrastructure reason), kept)
  save _ _ kept := (.error (.infrastructure reason), kept)

/-- What was asked of a store. -/
structure Requests where
  loads : List String := []
  saves : List (String × Snapshot) := []

/-- Always finds the same and writes down what it is asked. -/
def recording (found : Option Snapshot) : Store Requests where
  load conversation r := (.ok found, { r with loads := r.loads ++ [conversation] })
  save conversation snapshot r :=
    (.ok (), { r with saves := r.saves ++ [(conversation, snapshot)] })

@[simp] theorem memory_load (conversation : String) (kept : Table Snapshot) :
    memory.load conversation kept = (.ok (kept.find? conversation), kept) := rfl

@[simp] theorem memory_save (conversation : String) (snapshot : Snapshot) (kept : Table Snapshot) :
    memory.save conversation snapshot kept = (.ok (), kept.insert conversation snapshot) := rfl

end Store
end Colloquy
