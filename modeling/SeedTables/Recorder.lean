import SeedTables.Error
import SeedTables.Statement
import SeedTables.Text.Fragment

namespace SeedTables

/-- Executes one statement: the state behind it, and what went wrong. -/
abbrev Executor (σ : Type) := σ → Statement → σ × Option Error

/-- The texts of the statements executed so far, and the fragments that make a statement fail. -/
structure Recorder where
  executed : List String := []
  failing : List String := []

namespace Recorder

def failOn (fragment : String) (r : Recorder) : Recorder :=
  { r with failing := r.failing ++ [fragment] }

def clear (r : Recorder) : Recorder := { r with executed := [] }

def rejects (r : Recorder) (text : String) : Bool :=
  r.failing.any fun fragment => Text.occursIn fragment.toList text.toList

/-- Writes a statement down, whether it fails or not. -/
def execute : Executor Recorder := fun r s =>
  ({ r with executed := r.executed ++ [s.text] },
    if r.rejects s.text then some (.executionFailure s.text "rejected by recording executor")
    else none)

end Recorder
end SeedTables
