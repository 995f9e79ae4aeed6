import SeedTables.FileTree.Path
import SeedTables.Text.Utf8

namespace SeedTables

/-- A path as the system keeps it: any bytes, text or not. -/
structure RawPath where
  bytes : List UInt8
  deriving DecidableEq

namespace RawPath

def ofText (path : String) : RawPath := ⟨Text.bytes path.toList⟩

instance : Coe String RawPath := ⟨ofText⟩

/-- The path as it is printed. Different bytes that are no text may print alike. -/
def text (p : RawPath) : String := String.ofList (Text.readBytes p.bytes)

/-- The path continued by a text, which replaces it if it is absolute. -/
def join (p : RawPath) (next : String) : RawPath :=
  if Path.isAbsolute next then next
  else if p.bytes.isEmpty ∨ p.bytes.getLast? = some 0x2F then ⟨p.bytes ++ Text.bytes next.toList⟩
  else ⟨p.bytes ++ 0x2F :: Text.bytes next.toList⟩

end RawPath
end SeedTables
