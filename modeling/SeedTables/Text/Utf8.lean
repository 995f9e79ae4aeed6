namespace SeedTables.Text

def bytes (cs : List Char) : List UInt8 := cs.flatMap String.utf8EncodeChar

def replacement : Char := '\uFFFD'

/-- The bytes of a character up to some point: the bits that they hold, how many bytes are missing,
and the bounds of the next one. -/
structure Begun where
  bits : Nat
  missing : Nat
  low : Nat := 0x80
  high : Nat := 0xBF

def readFirst (b : Nat) : List Char × Option Begun :=
  if b < 0x80 then ([Char.ofNat b], none)
  else if b < 0xC2 then ([replacement], none)
  else if b < 0xE0 then ([], some { bits := b - 0xC0, missing := 1 })
  else if b < 0xF0 then
    ([], some {
      bits := b - 0xE0, missing := 2
      low := if b = 0xE0 then 0xA0 else 0x80
      high := if b = 0xED then 0x9F else 0xBF })
  else if b < 0xF5 then
    ([], some {
      bits := b - 0xF0, missing := 3
      low := if b = 0xF0 then 0x90 else 0x80
      high := if b = 0xF4 then 0x8F else 0xBF })
  else ([replacement], none)

def readNext (b : Nat) : Option Begun → List Char × Option Begun
  | none => readFirst b
  | some begun =>
    if begun.low ≤ b ∧ b ≤ begun.high then
      let bits := begun.bits * 64 + (b - 0x80)
      if begun.missing = 1 then ([Char.ofNat bits], none)
      else ([], some { bits, missing := begun.missing - 1 })
    else
      let (cs, begun) := readFirst b
      (replacement :: cs, begun)

def readOn : Option Begun → List UInt8 → List Char
  | none, [] => []
  | some _, [] => [replacement]
  | begun, b :: bs =>
    let (cs, begun) := readNext b.toNat begun
    cs ++ readOn begun bs

/-- Reads bytes as text. A character that is begun and not ended reads as one replacement, and so
does a byte that begins none. -/
def readBytes (bs : List UInt8) : List Char := readOn none bs

end SeedTables.Text
