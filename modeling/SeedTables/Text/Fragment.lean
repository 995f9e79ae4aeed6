namespace SeedTables.Text

/-- A text in which a fragment stands somewhere; the empty fragment stands in every text. -/
def occursIn (fragment : List Char) : List Char → Bool
  | [] => fragment.isEmpty
  | c :: r => fragment.isPrefixOf (c :: r) || occursIn fragment r

end SeedTables.Text
