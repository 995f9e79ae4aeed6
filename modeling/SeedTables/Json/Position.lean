import SeedTables.Text.Utf8

namespace SeedTables.Json

structure Position where
  line : Nat
  column : Nat
  deriving DecidableEq

def byteLength (cs : List Char) : Nat := (Text.bytes cs).length

/-- The place behind the first `offset` bytes of a text. Lines count from one; the column is the
number of bytes behind the last line end. -/
def Position.ofOffset (text : List Char) (offset : Nat) : Position :=
  let before := (Text.bytes text).take offset
  { line := before.count 10 + 1
    column := (before.reverse.takeWhile (· ≠ 10)).length }

end SeedTables.Json
