import SeedTables.Except
import SeedTables.Json.ReadError
import SeedTables.Json.Written

namespace SeedTables.Json

def isSpace (c : Char) : Bool := c = ' ' || c = '\n' || c = '\t' || c = '\r'

def skipSpaces (s : List Char) : List Char := s.dropWhile isSpace

theorem length_dropWhile_le (p : Char → Bool) (s : List Char) :
    (s.dropWhile p).length ≤ s.length :=
  (List.dropWhile_sublist p).length_le

theorem length_skipSpaces_le (s : List Char) : (skipSpaces s).length ≤ s.length :=
  length_dropWhile_le isSpace s

def word : List Char → List Char → Except Fault (List Char)
  | [], s => .ok s
  | _ :: _, [] => .error (.atEnd .unfinishedValue)
  | l :: ls, c :: r => if c = l then word ls r else .error (.next .expectedWord (c :: r))

theorem length_word_le {letters s r : List Char} (h : word letters s = .ok r) :
    r.length ≤ s.length := by
  induction letters generalizing s with
  | nil => simp only [word, Except.ok.injEq] at h; simp [h]
  | cons l ls ih =>
    cases s with
    | nil => simp [word] at h
    | cons c s =>
      rw [word] at h
      split at h
      · exact Nat.le_succ_of_le (ih h)
      · simp at h

def hexDigit? (c : Char) : Option Nat :=
  if c.isDigit then some (c.toNat - '0'.toNat)
  else if 'a' ≤ c ∧ c ≤ 'f' then some (c.toNat - 'a'.toNat + 10)
  else if 'A' ≤ c ∧ c ≤ 'F' then some (c.toNat - 'A'.toNat + 10)
  else none

/-- The objection to four bytes that are not hexadecimal digits is raised behind them. -/
def notHexUnit (s : List Char) : Fault :=
  if byteLength s < 4 then .atEnd .unfinishedString else ⟨.invalidEscape, s, 4⟩

/-- Four hexadecimal digits, a unit of UTF-16. -/
def hexUnit (s : List Char) : Except Fault (Nat × List Char) :=
  match s with
  | a :: b :: c :: d :: r =>
    match hexDigit? a, hexDigit? b, hexDigit? c, hexDigit? d with
    | some x, some y, some z, some w => .ok (((x * 16 + y) * 16 + z) * 16 + w, r)
    | _, _, _, _ => .error (notHexUnit s)
  | _ => .error (notHexUnit s)

theorem length_hexUnit {s r : List Char} {n : Nat} (h : hexUnit s = .ok (n, r)) :
    r.length < s.length := by
  unfold hexUnit at h
  split at h
  · split at h
    · simp only [Except.ok.injEq, Prod.mk.injEq] at h
      simp only [← h.2, List.length_cons]
      omega
    · simp at h
  · simp at h

def isLeadingSurrogate (n : Nat) : Bool := 0xD800 ≤ n && n ≤ 0xDBFF

def isTrailingSurrogate (n : Nat) : Bool := 0xDC00 ≤ n && n ≤ 0xDFFF

def ofSurrogates (leading trailing : Nat) : Char :=
  Char.ofNat (0x10000 + (leading - 0xD800) * 0x400 + (trailing - 0xDC00))

/-- The trailing surrogate that has to follow a leading one. -/
def trailingSurrogate (s : List Char) : Except Fault (Nat × List Char) :=
  match s with
  | '\\' :: 'u' :: r => do
    let (n, r) ← hexUnit r
    if isTrailingSurrogate n then return (n, r) else throw ⟨.unpairedSurrogate, r, 0⟩
  | [] => .error (.atEnd .unfinishedString)
  | ['\\'] => .error (.atEnd .unfinishedString)
  | '\\' :: r => .error (.next .unfinishedSurrogate r)
  | r => .error (.next .unfinishedSurrogate r)

theorem length_trailingSurrogate {s r : List Char} {n : Nat}
    (h : trailingSurrogate s = .ok (n, r)) : r.length < s.length := by
  unfold trailingSurrogate at h
  split at h
  · obtain ⟨⟨m, t⟩, hu, h⟩ := except_bind_eq_ok.mp h
    have hu := length_hexUnit hu
    dsimp only at h
    split at h
    · obtain ⟨-, rfl⟩ := Prod.mk.inj (except_pure_eq_ok.mp h)
      simp only [List.length_cons]
      omega
    · simp [except_throw_eq_ok] at h
  all_goals simp at h

/-- The character behind `\u`: one unit, or a leading and a trailing surrogate. -/
def unicodeEscape (s : List Char) : Except Fault (Char × List Char) := do
  let (n, r) ← hexUnit s
  if isTrailingSurrogate n then throw ⟨.unpairedSurrogate, r, 0⟩
  else if isLeadingSurrogate n then
    let (m, r) ← trailingSurrogate r
    return (ofSurrogates n m, r)
  else return (Char.ofNat n, r)

theorem length_unicodeEscape {s r : List Char} {c : Char} (h : unicodeEscape s = .ok (c, r)) :
    r.length < s.length := by
  obtain ⟨⟨n, t⟩, hu, h⟩ := except_bind_eq_ok.mp h
  have hu := length_hexUnit hu
  dsimp only at h
  split at h
  · simp [except_throw_eq_ok] at h
  · split at h
    · obtain ⟨⟨m, t'⟩, ht, h⟩ := except_bind_eq_ok.mp h
      obtain ⟨-, rfl⟩ := Prod.mk.inj (except_pure_eq_ok.mp h)
      exact Nat.lt_trans (length_trailingSurrogate ht) hu
    · obtain ⟨-, rfl⟩ := Prod.mk.inj (except_pure_eq_ok.mp h)
      exact hu

def escaped? (c : Char) : Option Char :=
  if c = '"' then some '"'
  else if c = '\\' then some '\\'
  else if c = '/' then some '/'
  else if c = 'b' then some '\x08'
  else if c = 'f' then some '\x0c'
  else if c = 'n' then some '\n'
  else if c = 'r' then some '\r'
  else if c = 't' then some '\t'
  else none

/-- The character that an escape stands for, from behind the backslash. -/
def escape (s : List Char) : Except Fault (Char × List Char) :=
  match s with
  | [] => .error (.atEnd .unfinishedString)
  | c :: r =>
    if c = 'u' then unicodeEscape r
    else match escaped? c with
      | some d => .ok (d, r)
      | none => .error (.next .invalidEscape (c :: r))

theorem length_escape {s r : List Char} {c : Char} (h : escape s = .ok (c, r)) :
    r.length < s.length := by
  cases s with
  | nil => simp [escape] at h
  | cons d s =>
    rw [escape] at h
    split at h
    · exact Nat.lt_succ_of_lt (length_unicodeEscape h)
    · split at h
      · simp only [Except.ok.injEq, Prod.mk.injEq] at h
        simp [h.2]
      · simp at h

def stringTail (s : List Char) : Except Fault (List Char × List Char) :=
  match s with
  | [] => .error (.atEnd .unfinishedString)
  | c :: r =>
    if c = '"' then .ok ([], r)
    else if c = '\\' then
      match h : escape r with
      | .error f => .error f
      | .ok (d, t) =>
        have : t.length < r.length := length_escape h
        (stringTail t).map fun (ds, t) => (d :: ds, t)
    else if c.toNat < 0x20 then .error (.next .controlCharacter (c :: r))
    else (stringTail r).map fun (ds, t) => (c :: ds, t)
termination_by s.length

theorem length_stringTail {s r cs : List Char} (h : stringTail s = .ok (cs, r)) :
    r.length < s.length := by
  fun_induction stringTail s generalizing cs r with
  | case1 => simp at h
  | case2 s =>
    simp only [Except.ok.injEq, Prod.mk.injEq] at h
    simp [h.2]
  | case3 => simp at h
  | case4 s _ d t he hlt ih =>
    obtain ⟨⟨ds, t'⟩, ht, h⟩ := except_map_eq_ok.mp h
    obtain ⟨-, rfl⟩ := Prod.mk.inj h
    have := ih ht
    simp only [List.length_cons]
    omega
  | case5 => simp at h
  | case6 c s _ _ _ ih =>
    obtain ⟨⟨ds, t'⟩, ht, h⟩ := except_map_eq_ok.mp h
    obtain ⟨-, rfl⟩ := Prod.mk.inj h
    exact Nat.lt_succ_of_lt (ih ht)

def digits (s : List Char) : Except Fault (List Char × List Char) :=
  if s.takeWhile Char.isDigit = [] then .error (.nextOrEnd .invalidNumber s)
  else .ok (s.takeWhile Char.isDigit, s.dropWhile Char.isDigit)

theorem length_digits {s r ds : List Char} (h : digits s = .ok (ds, r)) :
    r.length ≤ s.length := by
  unfold digits at h
  split at h
  · simp at h
  · simp only [Except.ok.injEq, Prod.mk.injEq] at h
    exact h.2 ▸ length_dropWhile_le _ s

/-- Digits before the point: a zero alone, or digits that start with another one. -/
def wholePart (s : List Char) : Except Fault (List Char × List Char) :=
  match s with
  | [] => .error (.atEnd .unfinishedValue)
  | c :: r =>
    if c = '0' then
      if (r.takeWhile Char.isDigit).isEmpty then .ok (['0'], r)
      else .error (.next .invalidNumber r)
    else if c.isDigit then .ok (c :: r.takeWhile Char.isDigit, r.dropWhile Char.isDigit)
    else .error (.next .invalidNumber (c :: r))

theorem length_wholePart {s r ds : List Char} (h : wholePart s = .ok (ds, r)) :
    r.length < s.length := by
  cases s with
  | nil => simp [wholePart] at h
  | cons c s =>
    rw [wholePart] at h
    split at h
    · split at h
      · simp only [Except.ok.injEq, Prod.mk.injEq] at h
        simp [h.2]
      · simp at h
    · split at h
      · simp only [Except.ok.injEq, Prod.mk.injEq] at h
        exact h.2 ▸ Nat.lt_succ_of_le (length_dropWhile_le _ s)
      · simp at h

def fractionPart (s : List Char) : Except Fault (List Char × List Char) :=
  match s with
  | [] => .ok ([], [])
  | c :: r => if c = '.' then digits r else .ok ([], c :: r)

theorem length_fractionPart {s r ds : List Char} (h : fractionPart s = .ok (ds, r)) :
    r.length ≤ s.length := by
  cases s with
  | nil => simp only [fractionPart, Except.ok.injEq, Prod.mk.injEq] at h; simp [← h.2]
  | cons c s =>
    rw [fractionPart] at h
    split at h
    · exact Nat.le_succ_of_le (length_digits h)
    · simp only [Except.ok.injEq, Prod.mk.injEq] at h
      simp [← h.2]

/-- The sign of an exponent, which may be left out, and the text behind it. -/
def exponentSign (s : List Char) : Bool × List Char :=
  match s with
  | [] => (false, [])
  | c :: r =>
    if c = '-' then (true, r)
    else if c = '+' then (false, r)
    else (false, c :: r)

theorem length_exponentSign (s : List Char) : (exponentSign s).2.length ≤ s.length := by
  cases s with
  | nil => simp [exponentSign]
  | cons c s =>
    rw [exponentSign]
    split
    · simp
    · split <;> simp

def exponentPart (s : List Char) : Except Fault (Option ExponentPart × List Char) :=
  match s with
  | [] => .ok (none, [])
  | c :: r =>
    if c = 'e' ∨ c = 'E' then
      let (negative, t) := exponentSign r
      (digits t).map fun (ds, t) => (some ⟨negative, ds⟩, t)
    else .ok (none, c :: r)

theorem length_exponentPart {s r : List Char} {e : Option ExponentPart}
    (h : exponentPart s = .ok (e, r)) : r.length ≤ s.length := by
  cases s with
  | nil => simp only [exponentPart, Except.ok.injEq, Prod.mk.injEq] at h; simp [← h.2]
  | cons c s =>
    rw [exponentPart] at h
    split at h
    · have hs := length_exponentSign s
      obtain ⟨⟨ds, t⟩, hd, h⟩ := except_map_eq_ok.mp h
      obtain ⟨-, rfl⟩ := Prod.mk.inj h
      exact Nat.le_succ_of_le (Nat.le_trans (length_digits hd) hs)
    · simp only [Except.ok.injEq, Prod.mk.injEq] at h
      simp [← h.2]

def unsignedNumber (negative : Bool) (s : List Char) : Except Fault (NumberToken × List Char) := do
  let (whole, r) ← wholePart s
  let (fraction, r) ← fractionPart r
  let (exponent, r) ← exponentPart r
  return (⟨negative, whole, fraction, exponent⟩, r)

theorem length_unsignedNumber {negative : Bool} {s r : List Char} {t : NumberToken}
    (h : unsignedNumber negative s = .ok (t, r)) : r.length < s.length := by
  obtain ⟨⟨whole, u⟩, hw, h⟩ := except_bind_eq_ok.mp h
  obtain ⟨⟨fraction, v⟩, hf, h⟩ := except_bind_eq_ok.mp h
  obtain ⟨⟨exponent, w⟩, he, h⟩ := except_bind_eq_ok.mp h
  obtain ⟨-, rfl⟩ := Prod.mk.inj (except_pure_eq_ok.mp h)
  have hw := length_wholePart hw
  have hf := length_fractionPart hf
  have he := length_exponentPart he
  omega

def numberToken (s : List Char) : Except Fault (NumberToken × List Char) :=
  match s with
  | [] => .error (.atEnd .unfinishedValue)
  | c :: r => if c = '-' then unsignedNumber true r else unsignedNumber false (c :: r)

theorem length_numberToken {s r : List Char} {t : NumberToken}
    (h : numberToken s = .ok (t, r)) : r.length < s.length := by
  cases s with
  | nil => simp [numberToken] at h
  | cons c s =>
    rw [numberToken] at h
    split at h
    · exact Nat.lt_succ_of_lt (length_unsignedNumber h)
    · exact length_unsignedNumber h

/-- The greatest exponent that is taken into account digit by digit. -/
def greatestWrittenExponent : Nat := Nat.pow 2 31 - 1

/-- The digits behind the one with which an exponent becomes too great. -/
def digitsBeyond (n : Nat) : List Char → List Char
  | [] => []
  | d :: ds =>
    if greatestWrittenExponent < 10 * n + digitValue d then ds
    else digitsBeyond (10 * n + digitValue d) ds

/-- The objection to a number too great for a double is raised behind the number, or behind the
digit with which its exponent alone is too great. -/
def outOfRange (t : NumberToken) (rest : List Char) : Fault :=
  match t.exponent with
  | some e =>
    if e.negative then ⟨.numberOutOfRange, rest, 0⟩
    else ⟨.numberOutOfRange, digitsBeyond 0 e.digits ++ rest, 0⟩
  | none => ⟨.numberOutOfRange, rest, 0⟩

def numeral (s : List Char) : Except Fault (Numeral × List Char) := do
  let (t, r) ← numberToken s
  match h : t.value? with
  | some n => return (⟨t, n, h⟩, r)
  | none => throw (outOfRange t r)

theorem length_numeral {s r : List Char} {n : Numeral} (h : numeral s = .ok (n, r)) :
    r.length < s.length := by
  obtain ⟨⟨t, u⟩, ht, h⟩ := except_bind_eq_ok.mp h
  have ht := length_numberToken ht
  dsimp only at h
  split at h
  · obtain ⟨-, rfl⟩ := Prod.mk.inj (except_pure_eq_ok.mp h)
    exact ht
  · simp [except_throw_eq_ok] at h

end SeedTables.Json
