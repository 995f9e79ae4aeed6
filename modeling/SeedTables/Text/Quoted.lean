import SeedTables.Text.Blank
import SeedTables.Text.GraphemeBase

namespace SeedTables.Text

/-- The Hangul letters that only fill a place. Unicode counts them among the bases, and has text
drawn without them. -/
def isFiller (c : Char) : Bool :=
  c = '\u115f' || c = '\u1160' || c = '\u3164' || c = '\uffa0'

/-- The halfwidth marks of voicing. They extend the letter before them, but in a place of their
own. -/
def isVoicingMark (c : Char) : Bool := c = '\uff9e' || c = '\uff9f'

def isVisible (c : Char) : Bool :=
  !isBlank c && !isFiller c && (isGraphemeBase c || isVoicingMark c)

def quotedChar (c : Char) : List Char :=
  if c = '\x00' then ['\\', '0']
  else if c = '\t' then ['\\', 't']
  else if c = '\r' then ['\\', 'r']
  else if c = '\n' then ['\\', 'n']
  else if c = '\\' then ['\\', '\\']
  else if c = '"' then ['\\', '"']
  else if c = ' ' then [c]
  else if isVisible c then [c]
  else ['\\', 'u', '{'] ++ Nat.toDigits 16 c.toNat ++ ['}']

def quoted (s : String) : String :=
  String.ofList ('"' :: s.toList.flatMap quotedChar ++ ['"'])

end SeedTables.Text
