import SeedTables.Proofs.DocumentGrammar
import SeedTables.Schema.Validation

namespace SeedTables

open Json (Value Members)
open Json.Value (HasPart)

def Member.first? (name : String) (ms : Members) : Option Value :=
  (ms.find? fun m => m.1 = name).map Prod.snd

/-- The part of a record that has a name in an object and a place in an array. -/
def Json.Value.part? (name : String) (place : Nat) : Value → Option Value
  | .object ms => Member.first? name ms
  | .array vs => vs[place]?
  | _ => none

/-- A part that stands in a record once, or not at all, is the first of its name. -/
theorem Json.Value.HasPart.part?_eq {name : String} {place : Nat} {v : Value} {part : Option Value}
    (h : v.HasPart [name] place part) : v.part? name place = part := by
  cases h with
  | object named =>
    have hhead := congrArg List.head? named
    simpa [Member.named, List.head?_filter, part?, Member.first?] using hhead
  | array element => exact element

namespace Schema

variable {v : Value} {s : Schema}

theorem ofValue_rows (h : ofValue v = .ok s) :
    v.part? "rows" 3 = some (.array (s.rows.map .object)) := by
  obtain ⟨part, hpart, hrows⟩ := ((decodes_ofValue v s).mp h).rows
  rw [hpart.part?_eq, Value.listOf_writes.mp hrows]

theorem ofValue_hasSequence (h : ofValue v = .ok s) :
    s.hasSequence = true ↔ ∃ o, v.part? "options" 4 = some o ∧ o ≠ .null := by
  have hoptions := ((decodes_ofValue v s).mp h).options
  unfold hasSequence
  generalize s.options = options at hoptions
  rcases hoptions with ⟨hpart, rfl⟩ | ⟨part, hpart, hoptions⟩
  · simp [hpart.part?_eq]
  · rw [hpart.part?_eq]
    cases hoptions with
    | null => simp
    | value notNull => simpa using notNull

end Schema
end SeedTables
