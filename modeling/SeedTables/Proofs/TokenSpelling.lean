import Mathlib.Data.List.TakeWhile
import SeedTables.Json.Reader
import SeedTables.Proofs.DelimitedText

namespace SeedTables.Json

open Text (Stops stops_nil stops_cons stops_dropWhile takeWhile_append_of_stops
  dropWhile_append_of_stops)

/-- What may stand between the parts of a text. -/
def Gap (cs : List Char) : Prop := ∀ c ∈ cs, isSpace c = true

theorem gap_nil : Gap [] := by simp [Gap]

theorem Gap.append {cs ds : List Char} (hc : Gap cs) (hd : Gap ds) : Gap (cs ++ ds) := by
  intro c h
  rcases List.mem_append.mp h with h | h
  · exact hc c h
  · exact hd c h

theorem exists_gap (s : List Char) : ∃ gap, Gap gap ∧ s = gap ++ skipSpaces s :=
  ⟨s.takeWhile isSpace, fun _ hc => List.mem_takeWhile_imp hc, List.takeWhile_append_dropWhile.symm⟩

theorem skipSpaces_append {gap rest : List Char} (hgap : Gap gap)
    (hrest : Stops (isSpace · = false) rest) : skipSpaces (gap ++ rest) = rest :=
  dropWhile_append_of_stops hgap hrest

/-- Digits, at least one. -/
structure DigitRun (ds : List Char) : Prop where
  some : ds ≠ []
  all : ∀ d ∈ ds, d.isDigit = true

/-- The digits before the point: a zero stands alone. -/
structure Whole (ds : List Char) : Prop extends DigitRun ds where
  zero : ds.head? = Option.some '0' → ds = ['0']

/-- The digits behind the point, with the point. -/
inductive FractionSpelledBy : List Char → List Char → Prop
  | absent : FractionSpelledBy [] []
  | digits {ds : List Char} (run : DigitRun ds) : FractionSpelledBy ds ('.' :: ds)

inductive ExponentSpelledBy : Option ExponentPart → List Char → Prop
  | absent : ExponentSpelledBy none []
  | unsigned {letter : Char} {ds : List Char} (isLetter : letter = 'e' ∨ letter = 'E')
    (run : DigitRun ds) : ExponentSpelledBy (some ⟨false, ds⟩) (letter :: ds)
  | plus {letter : Char} {ds : List Char} (isLetter : letter = 'e' ∨ letter = 'E')
    (run : DigitRun ds) : ExponentSpelledBy (some ⟨false, ds⟩) (letter :: '+' :: ds)
  | minus {letter : Char} {ds : List Char} (isLetter : letter = 'e' ∨ letter = 'E')
    (run : DigitRun ds) : ExponentSpelledBy (some ⟨true, ds⟩) (letter :: '-' :: ds)

def NumberToken.sign (t : NumberToken) : List Char := if t.negative then ['-'] else []

/-- A number is spelled by its sign, its digits before and behind the point, and its exponent. -/
inductive NumberToken.SpelledBy (t : NumberToken) : List Char → Prop
  | parts {fraction exponent : List Char} (whole : Whole t.whole)
    (behindPoint : FractionSpelledBy t.fraction fraction)
    (power : ExponentSpelledBy t.exponent exponent) :
    SpelledBy t (t.sign ++ (t.whole ++ (fraction ++ exponent)))

/-- A rest with which a number does not go on. -/
def EndsNumber : List Char → Prop :=
  Stops fun c => c.isDigit = false ∧ c ≠ '.' ∧ c ≠ 'e' ∧ c ≠ 'E'

theorem DigitRun.cases {ds : List Char} (h : DigitRun ds) :
    ∃ d rest, ds = d :: rest ∧ d.isDigit = true := by
  obtain ⟨d, rest, rfl⟩ := List.exists_cons_of_ne_nil h.some
  exact ⟨d, rest, rfl, h.all d List.mem_cons_self⟩

theorem digits_eq_ok {s ds r : List Char} : digits s = .ok (ds, r) ↔
    s = ds ++ r ∧ DigitRun ds ∧ Stops (Char.isDigit · = false) r := by
  unfold digits
  constructor
  · intro h
    split at h
    · cases h
    · rename_i hsome
      obtain ⟨rfl, rfl⟩ := Prod.mk.inj (Except.ok.inj h)
      exact ⟨List.takeWhile_append_dropWhile.symm,
        ⟨hsome, fun _ hd => List.mem_takeWhile_imp hd⟩, stops_dropWhile _ _⟩
  · intro h
    obtain ⟨rfl, hrun, hr⟩ := h
    rw [takeWhile_append_of_stops hrun.all hr, dropWhile_append_of_stops hrun.all hr,
      if_neg hrun.some]

theorem wholePart_eq_ok {s ds r : List Char} : wholePart s = .ok (ds, r) ↔
    s = ds ++ r ∧ Whole ds ∧ Stops (Char.isDigit · = false) r := by
  cases s with
  | nil =>
    simp only [wholePart, reduceCtorEq, false_iff]
    intro h
    obtain ⟨hs, hwhole, _⟩ := h
    exact hwhole.some (List.append_eq_nil_iff.mp hs.symm).1
  | cons c s =>
    rw [wholePart]
    by_cases hzero : c = '0'
    · subst hzero
      rw [if_pos rfl]
      constructor
      · intro h
        split at h
        · rename_i hempty
          obtain ⟨rfl, rfl⟩ := Prod.mk.inj (Except.ok.inj h)
          refine ⟨rfl, ⟨⟨by simp, by simp⟩, fun _ => rfl⟩, ?_⟩
          have hs : s.takeWhile Char.isDigit ++ s.dropWhile Char.isDigit = s :=
            List.takeWhile_append_dropWhile
          rw [List.isEmpty_iff.mp hempty, List.nil_append] at hs
          have hstops := stops_dropWhile Char.isDigit s
          rwa [hs] at hstops
        · cases h
      · intro h
        obtain ⟨hs, hwhole, hr⟩ := h
        obtain ⟨d, rest, rfl, _⟩ := hwhole.cases
        rw [List.cons_append, List.cons.injEq] at hs
        obtain ⟨rfl, rfl⟩ := hs
        obtain ⟨-, rfl⟩ := List.cons.inj (hwhole.zero rfl)
        have hnone : ([] ++ r).takeWhile Char.isDigit = [] :=
          takeWhile_append_of_stops (by simp) hr
        rw [List.nil_append] at hnone ⊢
        rw [hnone]
        rfl
    · rw [if_neg hzero]
      constructor
      · intro h
        split at h
        · rename_i hdigit
          obtain ⟨rfl, rfl⟩ := Prod.mk.inj (Except.ok.inj h)
          refine ⟨by simp, ⟨⟨by simp, ?_⟩, fun h0 => absurd (Option.some.inj h0) hzero⟩,
            stops_dropWhile _ _⟩
          intro d hd
          rcases List.mem_cons.mp hd with rfl | hd
          · exact hdigit
          · exact List.mem_takeWhile_imp hd
        · cases h
      · intro h
        obtain ⟨hs, hwhole, hr⟩ := h
        obtain ⟨d, rest, rfl, hdigit⟩ := hwhole.cases
        rw [List.cons_append, List.cons.injEq] at hs
        obtain ⟨rfl, rfl⟩ := hs
        have hrest : ∀ d ∈ rest, d.isDigit = true :=
          fun d hd => hwhole.all d (List.mem_cons_of_mem _ hd)
        rw [if_pos hdigit, takeWhile_append_of_stops hrest hr, dropWhile_append_of_stops hrest hr]

theorem fractionPart_spelled {s ds r : List Char} (h : fractionPart s = .ok (ds, r)) :
    ∃ cs, s = cs ++ r ∧ FractionSpelledBy ds cs := by
  cases s with
  | nil =>
    obtain ⟨rfl, rfl⟩ := Prod.mk.inj (Except.ok.inj h)
    exact ⟨[], rfl, .absent⟩
  | cons c s =>
    rw [fractionPart] at h
    split at h
    · rename_i hpoint
      obtain ⟨rfl, hrun, _⟩ := digits_eq_ok.mp h
      exact ⟨c :: ds, rfl, hpoint ▸ .digits hrun⟩
    · obtain ⟨rfl, rfl⟩ := Prod.mk.inj (Except.ok.inj h)
      exact ⟨[], rfl, .absent⟩

theorem fractionPart_of_spelled {ds cs r : List Char} (h : FractionSpelledBy ds cs)
    (hr : Stops (fun c => c.isDigit = false ∧ c ≠ '.') r) :
    fractionPart (cs ++ r) = .ok (ds, r) := by
  cases h with
  | absent =>
    cases r with
    | nil => rfl
    | cons c r => rw [List.nil_append, fractionPart, if_neg (stops_cons.mp hr).2]
  | digits run =>
    rw [List.cons_append, fractionPart, if_pos rfl]
    exact digits_eq_ok.mpr ⟨rfl, run, fun c hc => (hr c hc).1⟩

theorem exponentSign_of_digit {d : Char} {r : List Char} (h : d.isDigit = true) :
    exponentSign (d :: r) = (false, d :: r) := by
  have hminus : d ≠ '-' := by
    intro hd
    subst hd
    cases h
  have hplus : d ≠ '+' := by
    intro hd
    subst hd
    cases h
  rw [exponentSign, if_neg hminus, if_neg hplus]

theorem exponentPart_spelled {s r : List Char} {e : Option ExponentPart}
    (h : exponentPart s = .ok (e, r)) : ∃ cs, s = cs ++ r ∧ ExponentSpelledBy e cs := by
  cases s with
  | nil =>
    obtain ⟨rfl, rfl⟩ := Prod.mk.inj (Except.ok.inj h)
    exact ⟨[], rfl, .absent⟩
  | cons c s =>
    rw [exponentPart] at h
    split at h
    · rename_i hletter
      obtain ⟨⟨ds, t⟩, hdigits, h⟩ := except_map_eq_ok.mp h
      obtain ⟨rfl, rfl⟩ := Prod.mk.inj h
      obtain ⟨hs, hrun, _⟩ := digits_eq_ok.mp hdigits
      cases s with
      | nil => exact absurd (List.append_eq_nil_iff.mp hs.symm).1 hrun.some
      | cons d s =>
        by_cases hminus : d = '-'
        · subst hminus
          obtain rfl : s = ds ++ t := hs
          exact ⟨c :: '-' :: ds, rfl, .minus hletter hrun⟩
        by_cases hplus : d = '+'
        · subst hplus
          obtain rfl : s = ds ++ t := hs
          exact ⟨c :: '+' :: ds, rfl, .plus hletter hrun⟩
        simp only [if_neg hminus, if_neg hplus] at hs ⊢
        exact ⟨c :: ds, by rw [hs, List.cons_append], .unsigned hletter hrun⟩
    · obtain ⟨rfl, rfl⟩ := Prod.mk.inj (Except.ok.inj h)
      exact ⟨[], rfl, .absent⟩

theorem exponentPart_of_spelled {e : Option ExponentPart} {cs r : List Char}
    (h : ExponentSpelledBy e cs) (hr : EndsNumber r) : exponentPart (cs ++ r) = .ok (e, r) := by
  have hdigits : ∀ ds, DigitRun ds → digits (ds ++ r) = .ok (ds, r) :=
    fun ds run => digits_eq_ok.mpr ⟨rfl, run, fun c hc => (hr c hc).1⟩
  cases h with
  | absent =>
    cases r with
    | nil => rfl
    | cons c r =>
      have hc := (stops_cons.mp hr).2.2
      rw [List.nil_append, exponentPart, if_neg (by simp [hc])]
  | @unsigned letter ds isLetter run =>
    have hs : exponentSign (ds ++ r) = (false, ds ++ r) := by
      obtain ⟨d, rest, rfl, hd⟩ := run.cases
      exact exponentSign_of_digit hd
    simp only [List.cons_append, exponentPart, if_pos isLetter, hs, hdigits ds run]
    rfl
  | @plus letter ds isLetter run =>
    have hs : exponentSign ('+' :: (ds ++ r)) = (false, ds ++ r) := rfl
    simp only [List.cons_append, exponentPart, if_pos isLetter, hs, hdigits ds run]
    rfl
  | @minus letter ds isLetter run =>
    have hs : exponentSign ('-' :: (ds ++ r)) = (true, ds ++ r) := rfl
    simp only [List.cons_append, exponentPart, if_pos isLetter, hs, hdigits ds run]
    rfl

theorem unsignedNumber_spelled {negative : Bool} {s r : List Char} {t : NumberToken}
    (h : unsignedNumber negative s = .ok (t, r)) :
    ∃ cs, s = cs ++ r ∧ t.SpelledBy (t.sign ++ cs) ∧ t.negative = negative := by
  obtain ⟨⟨whole, u⟩, hw, h⟩ := except_bind_eq_ok.mp h
  obtain ⟨⟨fraction, v⟩, hf, h⟩ := except_bind_eq_ok.mp h
  obtain ⟨⟨exponent, w⟩, he, h⟩ := except_bind_eq_ok.mp h
  obtain ⟨rfl, rfl⟩ := Prod.mk.inj (except_pure_eq_ok.mp h)
  obtain ⟨rfl, hwhole, _⟩ := wholePart_eq_ok.mp hw
  obtain ⟨fs, rfl, hfraction⟩ := fractionPart_spelled hf
  obtain ⟨es, rfl, hexponent⟩ := exponentPart_spelled he
  exact ⟨whole ++ (fs ++ es), by simp, .parts hwhole hfraction hexponent, rfl⟩

theorem numberToken_spelled {s r : List Char} {t : NumberToken}
    (h : numberToken s = .ok (t, r)) : ∃ cs, s = cs ++ r ∧ t.SpelledBy cs := by
  cases s with
  | nil => cases h
  | cons c s =>
    rw [numberToken] at h
    split at h
    · rename_i hminus
      obtain ⟨cs, rfl, hspelled, hnegative⟩ := unsignedNumber_spelled h
      rw [NumberToken.sign, hnegative, if_pos rfl] at hspelled
      exact ⟨c :: cs, rfl, hminus ▸ hspelled⟩
    · obtain ⟨cs, hs, hspelled, hnegative⟩ := unsignedNumber_spelled h
      rw [NumberToken.sign, hnegative] at hspelled
      exact ⟨cs, hs, hspelled⟩

theorem unsignedNumber_of_parts {t : NumberToken} {fs es r : List Char} (hwhole : Whole t.whole)
    (hfraction : FractionSpelledBy t.fraction fs) (hexponent : ExponentSpelledBy t.exponent es)
    (hr : EndsNumber r) :
    unsignedNumber t.negative (t.whole ++ (fs ++ (es ++ r))) = .ok (t, r) := by
  obtain ⟨negative, whole, fraction, exponent⟩ := t
  have hbehindFraction : Stops (fun c => c.isDigit = false ∧ c ≠ '.') (es ++ r) := by
    cases hexponent with
    | absent => exact fun c hc => ⟨(hr c hc).1, (hr c hc).2.1⟩
    | unsigned isLetter _ => rcases isLetter with rfl | rfl <;> exact stops_cons.mpr (by decide)
    | plus isLetter _ => rcases isLetter with rfl | rfl <;> exact stops_cons.mpr (by decide)
    | minus isLetter _ => rcases isLetter with rfl | rfl <;> exact stops_cons.mpr (by decide)
  have hbehindWhole : Stops (Char.isDigit · = false) (fs ++ (es ++ r)) := by
    cases hfraction with
    | absent => exact fun c hc => (hbehindFraction c hc).1
    | digits _ => exact stops_cons.mpr (by decide)
  have hw := wholePart_eq_ok.mpr ⟨rfl, hwhole, hbehindWhole⟩
  have hf := fractionPart_of_spelled hfraction hbehindFraction
  have he := exponentPart_of_spelled hexponent hr
  exact except_bind_eq_ok.mpr ⟨_, hw, except_bind_eq_ok.mpr ⟨_, hf,
    except_bind_eq_ok.mpr ⟨_, he, rfl⟩⟩⟩

theorem numberToken_of_spelled {t : NumberToken} {cs r : List Char} (h : t.SpelledBy cs)
    (hr : EndsNumber r) : numberToken (cs ++ r) = .ok (t, r) := by
  cases h with
  | @parts fs es hwhole hfraction hexponent =>
    have hunsigned := unsignedNumber_of_parts hwhole hfraction hexponent hr
    cases hnegative : t.negative with
    | true =>
      rw [hnegative] at hunsigned
      simp only [NumberToken.sign, hnegative, if_pos, List.cons_append, List.nil_append,
        List.append_assoc, numberToken, hunsigned]
    | false =>
      rw [hnegative] at hunsigned
      obtain ⟨d, rest, hd, hdigit⟩ := hwhole.cases
      have hminus : d ≠ '-' := by
        intro he
        subst he
        cases hdigit
      rw [hd, List.cons_append] at hunsigned
      simp only [NumberToken.sign, hnegative, Bool.false_eq_true, if_false, List.nil_append, hd,
        List.cons_append, List.append_assoc, numberToken, if_neg hminus, hunsigned]

/-- A number starts with its sign or a digit. -/
theorem NumberToken.SpelledBy.start {t : NumberToken} {cs : List Char} (h : t.SpelledBy cs) :
    ∃ c rest, cs = c :: rest ∧ (c = '-' ∨ c.isDigit = true) := by
  cases h with
  | parts whole _ _ =>
    obtain ⟨d, rest, hd, hdigit⟩ := whole.cases
    cases hnegative : t.negative with
    | true => exact ⟨'-', _, by rw [sign, hnegative, if_pos rfl]; rfl, .inl rfl⟩
    | false => exact ⟨d, _, by rw [sign, hnegative, hd]; rfl, .inr hdigit⟩

theorem numeral_eq_ok {s r : List Char} {n : Numeral} :
    numeral s = .ok (n, r) ↔ numberToken s = .ok (n.token, r) := by
  rw [numeral, except_bind_eq_ok]
  constructor
  · intro h
    obtain ⟨⟨t, u⟩, ht, h⟩ := h
    dsimp only at h
    split at h
    · obtain ⟨rfl, rfl⟩ := Prod.mk.inj (except_pure_eq_ok.mp h)
      exact ht
    · exact (except_throw_eq_ok.mp h).elim
  · intro h
    refine ⟨_, h, ?_⟩
    dsimp only
    split
    · rename_i number hnumber
      obtain ⟨token, number', hnumber'⟩ := n
      obtain rfl : number' = number := Option.some.inj (hnumber'.symm.trans hnumber)
      rfl
    · rename_i hnone
      rw [n.value?_token] at hnone
      cases hnone

/-- Four hexadecimal digits. -/
inductive HexUnit : Nat → List Char → Prop
  | digits {a b c d : Char} {x y z w : Nat} (ha : hexDigit? a = some x) (hb : hexDigit? b = some y)
    (hc : hexDigit? c = some z) (hd : hexDigit? d = some w) :
    HexUnit (((x * 16 + y) * 16 + z) * 16 + w) [a, b, c, d]

/-- A character by what stands behind the backslash: a letter, one unit of UTF-16, or two. -/
inductive EscapeSpelledBy : Char → List Char → Prop
  | letter {c d : Char} (escaped : escaped? d = some c) : EscapeSpelledBy c [d]
  | unit {n : Nat} {cs : List Char} (hex : HexUnit n cs) (notLeading : isLeadingSurrogate n = false)
    (notTrailing : isTrailingSurrogate n = false) : EscapeSpelledBy (Char.ofNat n) ('u' :: cs)
  | pair {n m : Nat} {cs ds : List Char} (first : HexUnit n cs) (second : HexUnit m ds)
    (leading : isLeadingSurrogate n = true) (trailing : isTrailingSurrogate m = true) :
    EscapeSpelledBy (ofSurrogates n m) ('u' :: (cs ++ '\\' :: 'u' :: ds))

inductive CharSpelledBy : Char → List Char → Prop
  | plain {c : Char} (quote : c ≠ '"') (backslash : c ≠ '\\') (control : 0x20 ≤ c.toNat) :
    CharSpelledBy c [c]
  | escape {c : Char} {cs : List Char} (escaped : EscapeSpelledBy c cs) : CharSpelledBy c ('\\' :: cs)

/-- The characters of a string, one after another. -/
inductive CharsSpelledBy : List Char → List Char → Prop
  | nil : CharsSpelledBy [] []
  | cons {c : Char} {cs ds es : List Char} (first : CharSpelledBy c ds)
    (rest : CharsSpelledBy cs es) : CharsSpelledBy (c :: cs) (ds ++ es)

theorem hexUnit_eq_ok {s r : List Char} {n : Nat} :
    hexUnit s = .ok (n, r) ↔ ∃ cs, s = cs ++ r ∧ HexUnit n cs := by
  constructor
  · intro h
    unfold hexUnit at h
    split at h
    · rename_i a b c d t
      split at h
      · rename_i x y z w ha hb hc hd
        obtain ⟨rfl, rfl⟩ := Prod.mk.inj (Except.ok.inj h)
        exact ⟨[a, b, c, d], rfl, .digits ha hb hc hd⟩
      · cases h
    · cases h
  · intro h
    obtain ⟨cs, rfl, hcs⟩ := h
    cases hcs with
    | digits ha hb hc hd => simp only [List.cons_append, List.nil_append, hexUnit, ha, hb, hc, hd]

theorem trailingSurrogate_eq_ok {s r : List Char} {n : Nat} : trailingSurrogate s = .ok (n, r) ↔
    ∃ cs, s = '\\' :: 'u' :: cs ++ r ∧ HexUnit n cs ∧ isTrailingSurrogate n = true := by
  constructor
  · intro h
    unfold trailingSurrogate at h
    split at h
    · obtain ⟨⟨m, t⟩, hu, hm⟩ := except_bind_eq_ok.mp h
      obtain ⟨cs, hs, hcs⟩ := hexUnit_eq_ok.mp hu
      dsimp only at hm
      split at hm
      · rename_i htrailing
        obtain ⟨rfl, rfl⟩ := Prod.mk.inj (except_pure_eq_ok.mp hm)
        exact ⟨cs, by rw [hs]; rfl, hcs, htrailing⟩
      · exact (except_throw_eq_ok.mp hm).elim
    all_goals cases h
  · intro h
    obtain ⟨cs, rfl, hcs, htrailing⟩ := h
    have hu : hexUnit (cs ++ r) = .ok (n, r) := hexUnit_eq_ok.mpr ⟨cs, rfl, hcs⟩
    refine except_bind_eq_ok.mpr ⟨(n, r), hu, ?_⟩
    simp [htrailing, except_pure_eq_ok]

theorem unicodeEscape_spelled {s r : List Char} {c : Char} (h : unicodeEscape s = .ok (c, r)) :
    ∃ cs, s = cs ++ r ∧ EscapeSpelledBy c ('u' :: cs) := by
  obtain ⟨⟨n, t⟩, hu, hn⟩ := except_bind_eq_ok.mp h
  obtain ⟨cs, rfl, hcs⟩ := hexUnit_eq_ok.mp hu
  dsimp only at hn
  split at hn
  · exact (except_throw_eq_ok.mp hn).elim
  · rename_i hnotTrailing
    split at hn
    · rename_i hleading
      obtain ⟨⟨m, u⟩, ht, hm⟩ := except_bind_eq_ok.mp hn
      obtain ⟨rfl, rfl⟩ := Prod.mk.inj (except_pure_eq_ok.mp hm)
      obtain ⟨ds, rfl, hds, htrailing⟩ := trailingSurrogate_eq_ok.mp ht
      exact ⟨cs ++ '\\' :: 'u' :: ds, by simp, .pair hcs hds hleading htrailing⟩
    · rename_i hnotLeading
      obtain ⟨rfl, rfl⟩ := Prod.mk.inj (except_pure_eq_ok.mp hn)
      exact ⟨cs, rfl, .unit hcs (by simpa using hnotLeading) (by simpa using hnotTrailing)⟩

theorem unicodeEscape_of_unit {n : Nat} {cs r : List Char} (hex : HexUnit n cs)
    (notLeading : isLeadingSurrogate n = false) (notTrailing : isTrailingSurrogate n = false) :
    unicodeEscape (cs ++ r) = .ok (Char.ofNat n, r) := by
  have hu : hexUnit (cs ++ r) = .ok (n, r) := hexUnit_eq_ok.mpr ⟨cs, rfl, hex⟩
  refine except_bind_eq_ok.mpr ⟨(n, r), hu, ?_⟩
  simp [notLeading, notTrailing, except_pure_eq_ok]

theorem unicodeEscape_of_pair {n m : Nat} {cs ds r : List Char} (first : HexUnit n cs)
    (second : HexUnit m ds) (leading : isLeadingSurrogate n = true)
    (trailing : isTrailingSurrogate m = true) :
    unicodeEscape (cs ++ ('\\' :: 'u' :: ds ++ r)) = .ok (ofSurrogates n m, r) := by
  have hu : hexUnit (cs ++ ('\\' :: 'u' :: ds ++ r)) = .ok (n, '\\' :: 'u' :: ds ++ r) :=
    hexUnit_eq_ok.mpr ⟨cs, rfl, first⟩
  have ht : trailingSurrogate ('\\' :: 'u' :: ds ++ r) = .ok (m, r) :=
    trailingSurrogate_eq_ok.mpr ⟨ds, rfl, second, trailing⟩
  have hnotTrailing : isTrailingSurrogate n = false := by
    simp only [isLeadingSurrogate, Bool.and_eq_true, decide_eq_true_eq] at leading
    simp only [isTrailingSurrogate, Bool.and_eq_false_iff, decide_eq_false_iff_not]
    omega
  refine except_bind_eq_ok.mpr ⟨_, hu, ?_⟩
  simp only [hnotTrailing, leading, Bool.false_eq_true, if_false, if_true]
  exact except_bind_eq_ok.mpr ⟨_, ht, rfl⟩

theorem escape_eq_ok {s r : List Char} {c : Char} :
    escape s = .ok (c, r) ↔ ∃ cs, s = cs ++ r ∧ EscapeSpelledBy c cs := by
  constructor
  · intro h
    cases s with
    | nil => cases h
    | cons d s =>
      rw [escape] at h
      split at h
      · rename_i hu
        obtain ⟨cs, rfl, hcs⟩ := unicodeEscape_spelled h
        exact ⟨d :: cs, rfl, hu ▸ hcs⟩
      · split at h
        · rename_i e hescaped
          obtain ⟨rfl, rfl⟩ := Prod.mk.inj (Except.ok.inj h)
          exact ⟨[d], rfl, .letter hescaped⟩
        · cases h
  · intro h
    obtain ⟨cs, rfl, hcs⟩ := h
    cases hcs with
    | @letter _ d hescaped =>
      have hu : d ≠ 'u' := by
        intro hd
        subst hd
        cases hescaped
      simp only [List.cons_append, List.nil_append, escape, if_neg hu, hescaped]
    | unit hex notLeading notTrailing =>
      rw [List.cons_append, escape, if_pos rfl]
      exact unicodeEscape_of_unit hex notLeading notTrailing
    | pair first second leading trailing =>
      rw [List.cons_append, escape, if_pos rfl, List.append_assoc]
      exact unicodeEscape_of_pair first second leading trailing

theorem stringTail_of_char {c : Char} {cs s : List Char} (h : CharSpelledBy c cs) :
    stringTail (cs ++ s) = (stringTail s).map fun (ds, t) => (c :: ds, t) := by
  cases h with
  | plain quote backslash control =>
    rw [List.cons_append, List.nil_append, stringTail, if_neg quote, if_neg backslash,
      if_neg (Nat.not_lt.mpr control)]
  | @escape cs hescaped =>
    have he : escape (cs ++ s) = .ok (c, s) := escape_eq_ok.mpr ⟨cs, rfl, hescaped⟩
    rw [List.cons_append, stringTail, if_neg (by decide), if_pos rfl]
    split
    · rename_i f hf
      rw [he] at hf
      cases hf
    · rename_i d t hd
      rw [he] at hd
      obtain ⟨rfl, rfl⟩ := Prod.mk.inj (Except.ok.inj hd)
      rfl

theorem stringTail_append {ds cs : List Char} (h : CharsSpelledBy ds cs) (r : List Char) :
    stringTail (cs ++ '"' :: r) = .ok (ds, r) := by
  induction h with
  | nil => rw [List.nil_append, stringTail, if_pos rfl]
  | cons first _ ih =>
    rw [List.append_assoc, stringTail_of_char first, ih]
    rfl

/-- A string is read up to the quote that ends it, and stands for what its characters spell. -/
theorem stringTail_eq_ok {s ds r : List Char} :
    stringTail s = .ok (ds, r) ↔ ∃ cs, s = cs ++ '"' :: r ∧ CharsSpelledBy ds cs := by
  constructor
  · intro h
    fun_induction stringTail s generalizing ds r with
    | case1 => cases h
    | case2 s =>
      obtain ⟨rfl, rfl⟩ := Prod.mk.inj (Except.ok.inj h)
      exact ⟨[], rfl, .nil⟩
    | case3 => cases h
    | case4 s d t he _ _ ih =>
      obtain ⟨⟨ds', r'⟩, ht, h⟩ := except_map_eq_ok.mp h
      obtain ⟨rfl, rfl⟩ := Prod.mk.inj h
      obtain ⟨cs, rfl, hcs⟩ := escape_eq_ok.mp he
      obtain ⟨es, rfl, hes⟩ := ih ht
      exact ⟨'\\' :: cs ++ es, by simp, .cons (.escape hcs) hes⟩
    | case5 => cases h
    | case6 c s hquote hbackslash hcontrol ih =>
      obtain ⟨⟨ds', r'⟩, ht, h⟩ := except_map_eq_ok.mp h
      obtain ⟨rfl, rfl⟩ := Prod.mk.inj h
      obtain ⟨es, rfl, hes⟩ := ih ht
      exact ⟨[c] ++ es, by simp, .cons (.plain hquote hbackslash (Nat.not_lt.mp hcontrol)) hes⟩
  · intro h
    obtain ⟨cs, rfl, hcs⟩ := h
    exact stringTail_append hcs r

end SeedTables.Json
