import SeedTables.Json.Scan

namespace SeedTables.Json

/-- A reader of something from the beginning of a text; the text behind it is shorter. -/
structure Reader (α : Type) where
  read : List Char → Except Fault (α × List Char)
  shorter : ∀ {s x r}, read s = .ok (x, r) → r.length < s.length

def Reader.afterSpaces {α : Type} (item : Reader α) : Reader α where
  read s := item.read (skipSpaces s)
  shorter {s} _ _ h := Nat.lt_of_lt_of_le (item.shorter h) (length_skipSpaces_le s)

/-- The two kinds of lists: how they end, and what is said of one that does not. -/
structure Bracket where
  close : Char
  unfinished : Cause
  expectedEnd : Cause

def Bracket.square : Bracket := ⟨']', .unfinishedList, .expectedListEnd⟩

def Bracket.curly : Bracket := ⟨'}', .unfinishedObject, .expectedObjectEnd⟩

section Lists

variable {α : Type} (b : Bracket) (item : Reader α)

/-- What stands behind an item: the end of the list, or a comma and the text from the next item
on. -/
def itemEnd (s : List Char) : Except Fault (Bool × List Char) :=
  match skipSpaces s with
  | [] => .error (.atEnd b.unfinished)
  | c :: r =>
    if c = b.close then .ok (true, r)
    else if c = ',' then
      match skipSpaces r with
      | [] => .error (.atEnd .unfinishedValue)
      | d :: t =>
        if d = b.close then .error (.next .trailingComma (d :: t)) else .ok (false, d :: t)
    else .error (.next b.expectedEnd (c :: r))

theorem length_itemEnd {s r : List Char} {ended : Bool} (h : itemEnd b s = .ok (ended, r)) :
    r.length < s.length := by
  have hs := length_skipSpaces_le s
  unfold itemEnd at h
  split at h
  · simp at h
  · rename_i c t ht
    rw [ht, List.length_cons] at hs
    have hr := length_skipSpaces_le t
    split at h
    · simp only [Except.ok.injEq, Prod.mk.injEq] at h
      exact h.2 ▸ hs
    · split at h
      · split at h
        · simp at h
        · rename_i d u hu
          split at h
          · simp at h
          · simp only [Except.ok.injEq, Prod.mk.injEq] at h
            rw [← h.2, ← hu]
            omega
      · simp at h

/-- Items up to the closing bracket, from the first character of an item on. -/
def items (s : List Char) : Except Fault (List α × List Char) :=
  match hx : item.read s with
  | .error f => .error f
  | .ok (x, r) =>
    have : r.length < s.length := item.shorter hx
    match he : itemEnd b r with
    | .error f => .error f
    | .ok (true, t) => .ok ([x], t)
    | .ok (false, t) =>
      have : t.length < r.length := length_itemEnd b he
      (items t).map fun (xs, t) => (x :: xs, t)
termination_by s.length
decreasing_by omega

theorem length_items {s r : List Char} {xs : List α} (h : items b item s = .ok (xs, r)) :
    r.length < s.length := by
  fun_induction items b item s generalizing xs r with
  | case1 => simp at h
  | case2 => simp at h
  | case3 s x t hx ht u he =>
    simp only [Except.ok.injEq, Prod.mk.injEq] at h
    exact h.2 ▸ Nat.lt_trans (length_itemEnd b he) ht
  | case4 s x t hx ht u he hu ih =>
    obtain ⟨⟨ys, v⟩, hv, h⟩ := except_map_eq_ok.mp h
    obtain ⟨-, rfl⟩ := Prod.mk.inj h
    exact Nat.lt_trans (ih hv) (Nat.lt_trans hu ht)

def listTail (s : List Char) : Except Fault (List α × List Char) :=
  match skipSpaces s with
  | [] => .error (.atEnd b.unfinished)
  | c :: r => if c = b.close then .ok ([], r) else items b item (c :: r)

theorem length_listTail {s r : List Char} {xs : List α} (h : listTail b item s = .ok (xs, r)) :
    r.length < s.length := by
  have hs := length_skipSpaces_le s
  unfold listTail at h
  split at h
  · simp at h
  · rename_i c t ht
    rw [ht] at hs
    split at h
    · simp only [Except.ok.injEq, Prod.mk.injEq] at h
      exact h.2 ▸ hs
    · exact Nat.lt_of_lt_of_le (length_items b item h) hs

end Lists

def readMember (value : Reader Written) (s : List Char) :
    Except Fault ((String × Written) × List Char) :=
  match s with
  | [] => .error (.atEnd .unfinishedValue)
  | c :: r =>
    if c = '"' then do
      let (key, r) ← stringTail r
      match skipSpaces r with
      | [] => throw (.atEnd .unfinishedObject)
      | d :: t =>
        if d = ':' then
          let (v, t) ← value.read t
          return ((String.ofList key, v), t)
        else throw (.next .expectedColon (d :: t))
    else .error (.next .keyNotString (c :: r))

theorem length_readMember {value : Reader Written} {s r : List Char} {m : String × Written}
    (h : readMember value s = .ok (m, r)) : r.length < s.length := by
  cases s with
  | nil => simp [readMember] at h
  | cons c s =>
    rw [readMember] at h
    split at h
    · obtain ⟨⟨key, t⟩, hk, h⟩ := except_bind_eq_ok.mp h
      have hk := length_stringTail hk
      have ht := length_skipSpaces_le t
      dsimp only at h
      split at h
      · simp [except_throw_eq_ok] at h
      · rename_i d u hu
        rw [hu, List.length_cons] at ht
        split at h
        · obtain ⟨⟨v, w⟩, hv, h⟩ := except_bind_eq_ok.mp h
          have hv := value.shorter hv
          obtain ⟨-, rfl⟩ := Prod.mk.inj (except_pure_eq_ok.mp h)
          simp only [List.length_cons]
          omega
        · simp [except_throw_eq_ok] at h
    · simp at h

def member (value : Reader Written) : Reader (String × Written) :=
  ⟨readMember value, length_readMember⟩

/-- A list of one kind or the other, if lists may nest any deeper. -/
def nested {α : Type} (b : Bracket) (item : Option (Reader α)) (s : List Char) :
    Except Fault (List α × List Char) :=
  match item, s with
  | some item, _ :: r => listTail b item r
  | _, s => .error (.next .nestedTooDeep s)

theorem length_nested {α : Type} {b : Bracket} {item : Option (Reader α)} {s r : List Char}
    {xs : List α} (h : nested b item s = .ok (xs, r)) : r.length < s.length := by
  unfold nested at h
  split at h
  · exact Nat.lt_succ_of_lt (length_listTail b _ h)
  · simp at h

/-- A value, from its first character on; `inner` reads the values inside lists. -/
def readValue (inner : Option (Reader Written)) (s : List Char) :
    Except Fault (Written × List Char) :=
  match s with
  | [] => .error (.atEnd .unfinishedValue)
  | c :: r =>
    if c = 'n' then (word ['u', 'l', 'l'] r).map fun r => (.null, r)
    else if c = 't' then (word ['r', 'u', 'e'] r).map fun r => (.bool true, r)
    else if c = 'f' then (word ['a', 'l', 's', 'e'] r).map fun r => (.bool false, r)
    else if c = '"' then (stringTail r).map fun (cs, r) => (.string (String.ofList cs), r)
    else if c = '[' then
      (nested .square (inner.map Reader.afterSpaces) (c :: r)).map fun (xs, r) => (.array xs, r)
    else if c = '{' then
      (nested .curly (inner.map fun v => member v.afterSpaces) (c :: r)).map fun (ms, r) =>
        (.object ms, r)
    else if c = '-' ∨ c.isDigit then (numeral (c :: r)).map fun (n, r) => (.number n, r)
    else .error (.next .expectedValue (c :: r))

theorem length_readValue {inner : Option (Reader Written)} {s r : List Char} {w : Written}
    (h : readValue inner s = .ok (w, r)) : r.length < s.length := by
  cases s with
  | nil => simp [readValue] at h
  | cons c s =>
    rw [readValue] at h
    split at h
    · obtain ⟨t, ht, h⟩ := except_map_eq_ok.mp h
      exact (Prod.mk.inj h).2 ▸ Nat.lt_succ_of_le (length_word_le ht)
    split at h
    · obtain ⟨t, ht, h⟩ := except_map_eq_ok.mp h
      exact (Prod.mk.inj h).2 ▸ Nat.lt_succ_of_le (length_word_le ht)
    split at h
    · obtain ⟨t, ht, h⟩ := except_map_eq_ok.mp h
      exact (Prod.mk.inj h).2 ▸ Nat.lt_succ_of_le (length_word_le ht)
    split at h
    · obtain ⟨⟨cs, t⟩, ht, h⟩ := except_map_eq_ok.mp h
      exact (Prod.mk.inj h).2 ▸ Nat.lt_succ_of_lt (length_stringTail ht)
    split at h
    · obtain ⟨⟨xs, t⟩, ht, h⟩ := except_map_eq_ok.mp h
      exact (Prod.mk.inj h).2 ▸ length_nested ht
    split at h
    · obtain ⟨⟨ms, t⟩, ht, h⟩ := except_map_eq_ok.mp h
      exact (Prod.mk.inj h).2 ▸ length_nested ht
    split at h
    · obtain ⟨⟨n, t⟩, ht, h⟩ := except_map_eq_ok.mp h
      exact (Prod.mk.inj h).2 ▸ length_numeral ht
    · simp at h

def valueReader : Nat → Reader Written
  | 0 => ⟨readValue none, length_readValue⟩
  | depth + 1 => ⟨readValue (some (valueReader depth)), length_readValue⟩

def greatestDepth : Nat := 127

def document (s : List Char) : Except Fault Written := do
  let (w, r) ← (valueReader greatestDepth).afterSpaces.read s
  match skipSpaces r with
  | [] => return w
  | c :: r => throw (.next .trailingText (c :: r))

def Written.ofText (text : String) : Except ReadError Written :=
  (document text.toList).mapError (·.locate text.toList)

def Value.ofText (text : String) : Except ReadError Value :=
  (Written.ofText text).map Written.value

end SeedTables.Json
