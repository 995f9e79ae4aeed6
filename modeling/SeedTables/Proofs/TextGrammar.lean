import SeedTables.Proofs.TokenSpelling

namespace SeedTables.Json

open Text (Stops stops_nil stops_cons)

section Lists

variable {α : Type}

/-- Items with commas between them, and with gaps around each. -/
inductive Listed (item : α → List Char → Prop) : List α → List Char → Prop
  | one {x : α} {before cs after : List Char} (hbefore : Gap before) (hitem : item x cs)
    (hafter : Gap after) : Listed item [x] (before ++ (cs ++ after))
  | more {x : α} {xs : List α} {before cs after rest : List Char} (hbefore : Gap before)
    (hitem : item x cs) (hafter : Gap after) (hrest : Listed item xs rest) :
    Listed item (x :: xs) (before ++ (cs ++ (after ++ ',' :: rest)))

theorem Listed.compactOne {item : α → List Char → Prop} {x : α} {cs : List Char} (h : item x cs) :
    Listed item [x] cs := by
  have hone := Listed.one gap_nil h gap_nil
  rwa [List.nil_append, List.append_nil] at hone

theorem Listed.compactMore {item : α → List Char → Prop} {x : α} {xs : List α} {cs rest : List Char}
    (h : item x cs) (hrest : Listed item xs rest) : Listed item (x :: xs) (cs ++ ',' :: rest) :=
  .more gap_nil h gap_nil hrest

theorem Listed.afterGap {item : α → List Char → Prop} {xs : List α} {gap cs : List Char}
    (h : Listed item xs cs) (hgap : Gap gap) : Listed item xs (gap ++ cs) := by
  cases h with
  | one hbefore hitem hafter =>
    rw [← List.append_assoc]
    exact .one (hgap.append hbefore) hitem hafter
  | more hbefore hitem hafter hrest =>
    rw [← List.append_assoc]
    exact .more (hgap.append hbefore) hitem hafter hrest

/-- A list from behind its opening bracket, with the closing one. -/
inductive ListSpelledBy (b : Bracket) (item : α → List Char → Prop) : List α → List Char → Prop
  | empty {gap : List Char} (hgap : Gap gap) : ListSpelledBy b item [] (gap ++ [b.close])
  | items {xs : List α} {cs : List Char} (hitems : Listed item xs cs) :
    ListSpelledBy b item xs (cs ++ [b.close])

end Lists

/-- A member of an object: its key between quotes, a colon, and its value. -/
inductive MemberSpelledBy (value : Written → List Char → Prop) :
    String × Written → List Char → Prop
  | parts {key : String} {w : Written} {ks gap gap' cs : List Char}
    (hkey : CharsSpelledBy key.toList ks) (hgap : Gap gap) (hgap' : Gap gap') (hvalue : value w cs) :
    MemberSpelledBy value (key, w) ('"' :: (ks ++ '"' :: (gap ++ ':' :: (gap' ++ cs))))

/-- A value; `inner` spells the values inside lists. -/
inductive ValueSpelledBy (inner : Option (Written → List Char → Prop)) :
    Written → List Char → Prop
  | null : ValueSpelledBy inner .null ['n', 'u', 'l', 'l']
  | true : ValueSpelledBy inner (.bool .true) ['t', 'r', 'u', 'e']
  | false : ValueSpelledBy inner (.bool .false) ['f', 'a', 'l', 's', 'e']
  | number {n : Numeral} {cs : List Char} (hnumber : n.token.SpelledBy cs) :
    ValueSpelledBy inner (.number n) cs
  | string {s : String} {cs : List Char} (hstring : CharsSpelledBy s.toList cs) :
    ValueSpelledBy inner (.string s) ('"' :: (cs ++ ['"']))
  | array {item : Written → List Char → Prop} {ws : List Written} {cs : List Char}
    (deeper : inner = some item) (hlist : ListSpelledBy .square item ws cs) :
    ValueSpelledBy inner (.array ws) ('[' :: cs)
  | object {item : Written → List Char → Prop} {ms : List (String × Written)} {cs : List Char}
    (deeper : inner = some item) (hlist : ListSpelledBy .curly (MemberSpelledBy item) ms cs) :
    ValueSpelledBy inner (.object ms) ('{' :: cs)

/-- A value whose lists nest at most so deep. -/
def Written.SpelledWithin : Nat → Written → List Char → Prop
  | 0 => ValueSpelledBy none
  | depth + 1 => ValueSpelledBy (some (SpelledWithin depth))

/-- A text spells a document: one value, not nested too deep, and gaps around it. -/
def Written.SpelledBy (w : Written) (text : String) : Prop :=
  ∃ before cs after, text.toList = before ++ (cs ++ after) ∧ Gap before ∧ Gap after ∧
    w.SpelledWithin greatestDepth cs

/-- A character that a value or a member can start with. -/
def Starts (c : Char) : Prop := isSpace c = false ∧ c ≠ ']' ∧ c ≠ '}'

theorem starts_of_digit {c : Char} (h : c.isDigit = true) : Starts c := by
  have hne : ∀ d : Char, d.isDigit = false → c ≠ d := by
    intro d hd he
    rw [he, hd] at h
    cases h
  refine ⟨?_, hne ']' (by decide), hne '}' (by decide)⟩
  simp [isSpace, hne ' ' (by decide), hne '\n' (by decide), hne '\t' (by decide),
    hne '\r' (by decide)]

/-- A reader of items that are spelled in some way. It may pass over a gap, and is to find the
item where it starts; nothing may follow with which a number would go on. -/
structure Reader.Reads {α : Type} (reader : Reader α) (item : α → List Char → Prop) : Prop where
  spelled : ∀ {s x r}, reader.read s = .ok (x, r) →
    ∃ gap cs, Gap gap ∧ s = gap ++ (cs ++ r) ∧ item x cs
  accepted : ∀ {x cs r}, item x cs → EndsNumber r → reader.read (cs ++ r) = .ok (x, r)
  starts : ∀ {x cs}, item x cs → ∃ c t, cs = c :: t ∧ Starts c

section Lists

variable {α : Type} {reader : Reader α} {item : α → List Char → Prop} {b : Bracket}

theorem Reader.Reads.skipSpaces_item (h : reader.Reads item) {gap cs r : List Char} {x : α}
    (hgap : Gap gap) (hx : item x cs) : skipSpaces (gap ++ (cs ++ r)) = cs ++ r := by
  obtain ⟨c, t, rfl, hstart⟩ := h.starts hx
  exact skipSpaces_append hgap (stops_cons.mpr hstart.1)

theorem Reader.Reads.afterGap (h : reader.Reads item) {gap cs r : List Char} {x : α}
    (hgap : Gap gap) (hx : item x cs) (hr : EndsNumber r) :
    reader.afterSpaces.read (gap ++ (cs ++ r)) = .ok (x, r) := by
  change reader.read (skipSpaces (gap ++ (cs ++ r))) = _
  rw [h.skipSpaces_item hgap hx]
  exact h.accepted hx hr

theorem Reader.Reads.afterSpaces (h : reader.Reads item) : reader.afterSpaces.Reads item where
  spelled {s x r} hread := by
    obtain ⟨gap, cs, hgap, hs, hx⟩ := h.spelled hread
    obtain ⟨before, hbefore, hskip⟩ := exists_gap s
    exact ⟨before ++ gap, cs, hbefore.append hgap, by rw [hskip, hs, List.append_assoc], hx⟩
  accepted hx hr := h.afterGap gap_nil hx hr
  starts := h.starts

theorem isSpace_close (hb : b = .square ∨ b = .curly) : isSpace b.close = false := by
  rcases hb with rfl | rfl <;> decide

theorem close_ne_comma (hb : b = .square ∨ b = .curly) : b.close ≠ ',' := by
  rcases hb with rfl | rfl <;> decide

theorem Starts.ne_close {c : Char} (h : Starts c) (hb : b = .square ∨ b = .curly) :
    c ≠ b.close := by
  rcases hb with rfl | rfl
  · exact h.2.1
  · exact h.2.2

theorem Gap.endsNumber {gap rest : List Char} (hgap : Gap gap) (hrest : EndsNumber rest) :
    EndsNumber (gap ++ rest) := by
  cases gap with
  | nil => exact hrest
  | cons d gap =>
    rw [List.cons_append, EndsNumber, stops_cons]
    have hd := hgap d List.mem_cons_self
    simp only [isSpace, Bool.or_eq_true, decide_eq_true_eq] at hd
    rcases hd with ((rfl | rfl) | rfl) | rfl <;> decide

theorem endsNumber_comma (rest : List Char) : EndsNumber (',' :: rest) :=
  stops_cons.mpr (by decide)

theorem endsNumber_close (hb : b = .square ∨ b = .curly) (rest : List Char) :
    EndsNumber (b.close :: rest) := by
  rcases hb with rfl | rfl <;> exact stops_cons.mpr (by decide)

theorem itemEnd_close (hb : b = .square ∨ b = .curly) {gap r : List Char} (hgap : Gap gap) :
    itemEnd b (gap ++ b.close :: r) = .ok (true, r) := by
  rw [itemEnd, skipSpaces_append hgap (stops_cons.mpr (isSpace_close hb))]
  dsimp only
  rw [if_pos rfl]

theorem itemEnd_comma (hb : b = .square ∨ b = .curly) {gap gap' t : List Char} {c : Char}
    (hgap : Gap gap) (hgap' : Gap gap') (hc : Starts c) :
    itemEnd b (gap ++ ',' :: (gap' ++ c :: t)) = .ok (false, c :: t) := by
  have hcomma : isSpace ',' = false := by decide
  rw [itemEnd, skipSpaces_append hgap (stops_cons.mpr hcomma)]
  dsimp only
  rw [if_neg (close_ne_comma hb).symm, if_pos rfl,
    skipSpaces_append hgap' (stops_cons.mpr hc.1)]
  dsimp only
  rw [if_neg (hc.ne_close hb)]

theorem itemEnd_spelled {s r : List Char} {ended : Bool} (h : itemEnd b s = .ok (ended, r)) :
    ∃ gap, Gap gap ∧ (ended = true ∧ s = gap ++ b.close :: r ∨
      ended = false ∧ ∃ gap', Gap gap' ∧ s = gap ++ ',' :: (gap' ++ r)) := by
  obtain ⟨gap, hgap, hs⟩ := exists_gap s
  refine ⟨gap, hgap, ?_⟩
  unfold itemEnd at h
  split at h
  · cases h
  · rename_i c t ht
    rw [ht] at hs
    split at h
    · rename_i hclose
      obtain ⟨rfl, rfl⟩ := Prod.mk.inj (Except.ok.inj h)
      exact .inl ⟨rfl, hclose ▸ hs⟩
    · split at h
      · rename_i hcomma
        obtain ⟨gap', hgap', ht'⟩ := exists_gap t
        split at h
        · cases h
        · rename_i d u hu
          rw [hu] at ht'
          split at h
          · cases h
          · obtain ⟨rfl, rfl⟩ := Prod.mk.inj (Except.ok.inj h)
            exact .inr ⟨rfl, gap', hgap', by rw [hs, hcomma, ht']⟩
      · cases h

theorem items_ended {s r t : List Char} {x : α} (hx : reader.read s = .ok (x, r))
    (he : itemEnd b r = .ok (true, t)) : items b reader s = .ok ([x], t) := by
  rw [items]
  split
  · rename_i f hf
    rw [hx] at hf
    cases hf
  · rename_i y u hy
    rw [hx] at hy
    obtain ⟨rfl, rfl⟩ := Prod.mk.inj (Except.ok.inj hy)
    dsimp only
    split
    · rename_i f hf
      rw [he] at hf
      cases hf
    · rename_i v hv
      rw [he] at hv
      obtain ⟨-, rfl⟩ := Prod.mk.inj (Except.ok.inj hv)
      rfl
    · rename_i v hv
      rw [he] at hv
      cases hv

theorem items_more {s r t u : List Char} {x : α} {xs : List α} (hx : reader.read s = .ok (x, r))
    (he : itemEnd b r = .ok (false, t)) (hxs : items b reader t = .ok (xs, u)) :
    items b reader s = .ok (x :: xs, u) := by
  rw [items]
  split
  · rename_i f hf
    rw [hx] at hf
    cases hf
  · rename_i y v hy
    rw [hx] at hy
    obtain ⟨rfl, rfl⟩ := Prod.mk.inj (Except.ok.inj hy)
    dsimp only
    split
    · rename_i f hf
      rw [he] at hf
      cases hf
    · rename_i v hv
      rw [he] at hv
      cases hv
    · rename_i v hv
      rw [he] at hv
      obtain ⟨-, rfl⟩ := Prod.mk.inj (Except.ok.inj hv)
      rw [hxs]
      rfl

theorem Reader.Reads.items_spelled (h : reader.Reads item) {s r : List Char} {xs : List α}
    (hread : items b reader s = .ok (xs, r)) :
    ∃ cs, s = cs ++ b.close :: r ∧ Listed item xs cs := by
  fun_induction items b reader s generalizing xs r with
  | case1 => cases hread
  | case2 => cases hread
  | case3 s x t hx _ u he =>
    obtain ⟨rfl, rfl⟩ := Prod.mk.inj (Except.ok.inj hread)
    obtain ⟨before, cs, hbefore, rfl, hitem⟩ := h.spelled hx
    obtain ⟨after, hafter, ⟨-, rfl⟩ | ⟨hended, -⟩⟩ := itemEnd_spelled he
    · exact ⟨before ++ (cs ++ after), by simp, .one hbefore hitem hafter⟩
    · cases hended
  | case4 s x t hx _ u he _ ih =>
    obtain ⟨⟨ys, v⟩, hys, hread⟩ := except_map_eq_ok.mp hread
    obtain ⟨rfl, rfl⟩ := Prod.mk.inj hread
    obtain ⟨before, cs, hbefore, rfl, hitem⟩ := h.spelled hx
    obtain ⟨rest, rfl, hrest⟩ := ih hys
    obtain ⟨after, hafter, ⟨hended, -⟩ | ⟨-, gap, hgap, rfl⟩⟩ := itemEnd_spelled he
    · cases hended
    · exact ⟨before ++ (cs ++ (after ++ ',' :: (gap ++ rest))), by simp,
        .more hbefore hitem hafter (hrest.afterGap hgap)⟩

/-- Items are read from where the first of them starts. -/
theorem Reader.Reads.items_of_listed (h : reader.Reads item) (hb : b = .square ∨ b = .curly)
    {xs : List α} {cs : List Char} (hxs : Listed item xs cs) (r : List Char) :
    ∃ gap c t, Gap gap ∧ cs = gap ++ c :: t ∧ Starts c ∧
      items b reader (c :: t ++ b.close :: r) = .ok (xs, r) := by
  induction hxs with
  | @one x before cs after hbefore hitem hafter =>
    obtain ⟨c, t, rfl, hc⟩ := h.starts hitem
    refine ⟨before, c, t ++ after, hbefore, by simp, hc, ?_⟩
    have hread := h.accepted hitem (hafter.endsNumber (endsNumber_close hb r))
    rw [← List.cons_append, List.append_assoc]
    exact items_ended hread (itemEnd_close hb hafter)
  | @more x xs before cs after rest hbefore hitem hafter _ ih =>
    obtain ⟨c, t, rfl, hc⟩ := h.starts hitem
    obtain ⟨gap, d, u, hgap, rfl, hd, hrest⟩ := ih
    refine ⟨before, c, t ++ (after ++ ',' :: (gap ++ d :: u)), hbefore, by simp, hc, ?_⟩
    have hread := h.accepted hitem
      (hafter.endsNumber (endsNumber_comma (gap ++ (d :: u ++ b.close :: r))))
    have hsplit : c :: (t ++ (after ++ ',' :: (gap ++ d :: u))) ++ b.close :: r =
        c :: t ++ (after ++ ',' :: (gap ++ (d :: u ++ b.close :: r))) := by simp
    rw [hsplit]
    exact items_more hread (itemEnd_comma hb hafter hgap hd) hrest

/-- A list is read up to its closing bracket, and consists of what its items spell. -/
theorem Reader.Reads.listTail_eq_ok (h : reader.Reads item) (hb : b = .square ∨ b = .curly)
    {s r : List Char} {xs : List α} : listTail b reader s = .ok (xs, r) ↔
      ∃ cs, s = cs ++ r ∧ ListSpelledBy b item xs cs := by
  constructor
  · intro hread
    obtain ⟨gap, hgap, hs⟩ := exists_gap s
    unfold listTail at hread
    split at hread
    · cases hread
    · rename_i c t ht
      rw [ht] at hs
      split at hread
      · rename_i hclose
        obtain ⟨rfl, rfl⟩ := Prod.mk.inj (Except.ok.inj hread)
        exact ⟨gap ++ [b.close], by rw [hs, hclose]; simp, .empty hgap⟩
      · obtain ⟨cs, hcs, hlisted⟩ := h.items_spelled hread
        exact ⟨gap ++ cs ++ [b.close], by rw [hs, hcs]; simp, .items (hlisted.afterGap hgap)⟩
  · intro hspelled
    obtain ⟨cs, rfl, hlist⟩ := hspelled
    cases hlist with
    | empty hgap =>
      rw [listTail, List.append_assoc, List.cons_append, List.nil_append,
        skipSpaces_append hgap (stops_cons.mpr (isSpace_close hb))]
      dsimp only
      rw [if_pos rfl]
    | items hitems =>
      obtain ⟨gap, c, t, hgap, rfl, hc, hread⟩ := h.items_of_listed hb hitems r
      have hsplit : gap ++ c :: t ++ [b.close] ++ r = gap ++ c :: (t ++ b.close :: r) := by simp
      rw [hsplit, listTail, skipSpaces_append hgap (stops_cons.mpr hc.1)]
      dsimp only
      rw [if_neg (hc.ne_close hb)]
      exact hread

end Lists

instance (c : Char) : Decidable (Starts c) :=
  inferInstanceAs (Decidable (isSpace c = false ∧ c ≠ ']' ∧ c ≠ '}'))

section Members

variable {value : Reader Written} {item : Written → List Char → Prop}

theorem Reader.Reads.readMember_spelled (h : value.Reads item) {s r : List Char}
    {m : String × Written} (hread : readMember value.afterSpaces s = .ok (m, r)) :
    ∃ cs, s = cs ++ r ∧ MemberSpelledBy item m cs := by
  cases s with
  | nil => cases hread
  | cons c s =>
    rw [readMember] at hread
    split at hread
    · rename_i hquote
      obtain ⟨⟨key, t⟩, hkey, hcolon⟩ := except_bind_eq_ok.mp hread
      obtain ⟨ks, hs, hks⟩ := stringTail_eq_ok.mp hkey
      obtain ⟨gap, hgap, ht⟩ := exists_gap t
      dsimp only at hcolon
      split at hcolon
      · exact (except_throw_eq_ok.mp hcolon).elim
      · rename_i d u hu
        rw [hu] at ht
        split at hcolon
        · rename_i hd
          obtain ⟨⟨w, v⟩, hw, hm⟩ := except_bind_eq_ok.mp hcolon
          obtain ⟨rfl, rfl⟩ := Prod.mk.inj (except_pure_eq_ok.mp hm)
          obtain ⟨gap', cs, hgap', hu', hitem⟩ := h.afterSpaces.spelled hw
          rw [← String.toList_ofList (l := key)] at hks
          exact ⟨_, by simp [hquote, hs, ht, hd, hu'], .parts hks hgap hgap' hitem⟩
        · exact (except_throw_eq_ok.mp hcolon).elim
    · cases hread

theorem Reader.Reads.readMember_of_spelled (h : value.Reads item) {m : String × Written}
    {cs r : List Char} (hm : MemberSpelledBy item m cs) (hr : EndsNumber r) :
    readMember value.afterSpaces (cs ++ r) = .ok (m, r) := by
  cases hm with
  | @parts key w ks gap gap' cs hkey hgap hgap' hvalue =>
    have hkey := stringTail_append hkey (gap ++ ':' :: (gap' ++ (cs ++ r)))
    have hcolon : isSpace ':' = false := by decide
    have hskip : skipSpaces (gap ++ ':' :: (gap' ++ (cs ++ r))) = ':' :: (gap' ++ (cs ++ r)) :=
      skipSpaces_append hgap (stops_cons.mpr hcolon)
    have hvalue := h.afterGap hgap' hvalue hr
    simp only [List.cons_append, List.append_assoc, readMember, if_pos]
    refine except_bind_eq_ok.mpr ⟨_, hkey, ?_⟩
    dsimp only
    rw [hskip]
    dsimp only
    rw [if_pos rfl]
    refine except_bind_eq_ok.mpr ⟨_, hvalue, ?_⟩
    rw [String.ofList_toList]
    rfl

theorem Reader.Reads.member (h : value.Reads item) :
    (member value.afterSpaces).Reads (MemberSpelledBy item) where
  spelled hread := by
    obtain ⟨cs, hs, hm⟩ := h.readMember_spelled hread
    exact ⟨[], cs, gap_nil, hs, hm⟩
  accepted hm hr := h.readMember_of_spelled hm hr
  starts hm := by
    cases hm with
    | parts => exact ⟨_, _, rfl, by decide⟩

end Members

theorem word_eq_ok {letters s r : List Char} : word letters s = .ok r ↔ s = letters ++ r := by
  induction letters generalizing s with
  | nil =>
    rw [word, Except.ok.injEq, List.nil_append]
  | cons l letters ih =>
    cases s with
    | nil => simp [word]
    | cons c s =>
      rw [word, List.cons_append, List.cons.injEq]
      by_cases hc : c = l
      · rw [if_pos hc, ih]
        exact ⟨fun hs => ⟨hc, hs⟩, fun hs => hs.2⟩
      · rw [if_neg hc]
        simp [hc]

theorem word_append (letters r : List Char) : word letters (letters ++ r) = .ok r :=
  word_eq_ok.mpr rfl

section Values

variable {inner : Option (Reader Written)} {item : Option (Written → List Char → Prop)}

theorem nested_spelled {α : Type} {b : Bracket} (hb : b = .square ∨ b = .curly)
    {f : Reader Written → Reader α} {g : (Written → List Char → Prop) → α → List Char → Prop}
    (hfg : ∀ {reader item}, reader.Reads item → (f reader).Reads (g item))
    (h : Option.Rel Reader.Reads inner item) {c : Char} {s r : List Char} {xs : List α}
    (hread : nested b (inner.map f) (c :: s) = .ok (xs, r)) :
    ∃ value cs, item = some value ∧ s = cs ++ r ∧ ListSpelledBy b (g value) xs cs := by
  cases h with
  | none => cases hread
  | @some reader value hreads =>
    obtain ⟨cs, hs, hlist⟩ := ((hfg hreads).listTail_eq_ok hb).mp hread
    exact ⟨value, cs, rfl, hs, hlist⟩

theorem nested_of_spelled {α : Type} {b : Bracket} (hb : b = .square ∨ b = .curly)
    {f : Reader Written → Reader α} {g : (Written → List Char → Prop) → α → List Char → Prop}
    (hfg : ∀ {reader item}, reader.Reads item → (f reader).Reads (g item))
    {value : Written → List Char → Prop} (h : Option.Rel Reader.Reads inner (some value)) {c : Char}
    {cs r : List Char} {xs : List α} (hlist : ListSpelledBy b (g value) xs cs) :
    nested b (inner.map f) (c :: (cs ++ r)) = .ok (xs, r) := by
  cases h with
  | some hreads => exact ((hfg hreads).listTail_eq_ok hb).mpr ⟨cs, rfl, hlist⟩

theorem readValue_spelled (h : Option.Rel Reader.Reads inner item) {s r : List Char} {w : Written}
    (hread : readValue inner s = .ok (w, r)) : ∃ cs, s = cs ++ r ∧ ValueSpelledBy item w cs := by
  cases s with
  | nil => cases hread
  | cons c s =>
    rw [readValue] at hread
    split at hread
    · rename_i hc
      obtain ⟨t, ht, hw⟩ := except_map_eq_ok.mp hread
      obtain ⟨rfl, rfl⟩ := Prod.mk.inj hw
      exact ⟨_, by rw [hc, word_eq_ok.mp ht]; rfl, .null⟩
    split at hread
    · rename_i hc
      obtain ⟨t, ht, hw⟩ := except_map_eq_ok.mp hread
      obtain ⟨rfl, rfl⟩ := Prod.mk.inj hw
      exact ⟨_, by rw [hc, word_eq_ok.mp ht]; rfl, .true⟩
    split at hread
    · rename_i hc
      obtain ⟨t, ht, hw⟩ := except_map_eq_ok.mp hread
      obtain ⟨rfl, rfl⟩ := Prod.mk.inj hw
      exact ⟨_, by rw [hc, word_eq_ok.mp ht]; rfl, .false⟩
    split at hread
    · rename_i hc
      obtain ⟨⟨cs, t⟩, ht, hw⟩ := except_map_eq_ok.mp hread
      obtain ⟨rfl, rfl⟩ := Prod.mk.inj hw
      obtain ⟨ks, hs, hks⟩ := stringTail_eq_ok.mp ht
      rw [← String.toList_ofList (l := cs)] at hks
      exact ⟨_, by simp [hc, hs], .string hks⟩
    split at hread
    · rename_i hc
      obtain ⟨⟨xs, t⟩, ht, hw⟩ := except_map_eq_ok.mp hread
      obtain ⟨rfl, rfl⟩ := Prod.mk.inj hw
      obtain ⟨value, cs, hitem, hs, hlist⟩ :=
        nested_spelled (.inl rfl) Reader.Reads.afterSpaces h ht
      exact ⟨'[' :: cs, by rw [hc, hs]; rfl, .array hitem hlist⟩
    split at hread
    · rename_i hc
      obtain ⟨⟨ms, t⟩, ht, hw⟩ := except_map_eq_ok.mp hread
      obtain ⟨rfl, rfl⟩ := Prod.mk.inj hw
      obtain ⟨value, cs, hitem, hs, hlist⟩ := nested_spelled (.inr rfl) Reader.Reads.member h ht
      exact ⟨'{' :: cs, by rw [hc, hs]; rfl, .object hitem hlist⟩
    split at hread
    · obtain ⟨⟨n, t⟩, ht, hw⟩ := except_map_eq_ok.mp hread
      obtain ⟨rfl, rfl⟩ := Prod.mk.inj hw
      obtain ⟨cs, hs, hnumber⟩ := numberToken_spelled (numeral_eq_ok.mp ht)
      exact ⟨cs, hs, .number hnumber⟩
    · cases hread

theorem readValue_number {c : Char} {s : List Char} (hc : c = '-' ∨ c.isDigit = true) :
    readValue inner (c :: s) = (numeral (c :: s)).map fun (n, r) => (.number n, r) := by
  have hne : ∀ d : Char, d ≠ '-' → d.isDigit = false → c ≠ d := by
    intro d hminus hdigit he
    rw [he] at hc
    rcases hc with hc | hc
    · exact hminus hc
    · rw [hdigit] at hc
      cases hc
  rw [readValue, if_neg (hne 'n' (by decide) (by decide)), if_neg (hne 't' (by decide) (by decide)),
    if_neg (hne 'f' (by decide) (by decide)), if_neg (hne '"' (by decide) (by decide)),
    if_neg (hne '[' (by decide) (by decide)), if_neg (hne '{' (by decide) (by decide)), if_pos hc]

theorem readValue_of_spelled (h : Option.Rel Reader.Reads inner item) {w : Written}
    {cs r : List Char} (hw : ValueSpelledBy item w cs) (hr : EndsNumber r) :
    readValue inner (cs ++ r) = .ok (w, r) := by
  cases hw with
  | null =>
    exact except_map_eq_ok.mpr ⟨r, word_append ['u', 'l', 'l'] r, rfl⟩
  | true =>
    exact except_map_eq_ok.mpr ⟨r, word_append ['r', 'u', 'e'] r, rfl⟩
  | false =>
    exact except_map_eq_ok.mpr ⟨r, word_append ['a', 'l', 's', 'e'] r, rfl⟩
  | @number n cs hnumber =>
    have hread := numeral_eq_ok.mpr (numberToken_of_spelled hnumber hr)
    obtain ⟨c, t, rfl, hc⟩ := hnumber.start
    rw [List.cons_append] at hread ⊢
    rw [readValue_number hc, hread]
    rfl
  | @string s cs hstring =>
    rw [List.cons_append, List.append_assoc]
    refine except_map_eq_ok.mpr ⟨(s.toList, r), stringTail_append hstring r, ?_⟩
    dsimp only
    rw [String.ofList_toList]
  | array deeper hlist =>
    subst deeper
    exact except_map_eq_ok.mpr
      ⟨_, nested_of_spelled (.inl rfl) Reader.Reads.afterSpaces h hlist, rfl⟩
  | object deeper hlist =>
    subst deeper
    exact except_map_eq_ok.mpr ⟨_, nested_of_spelled (.inr rfl) Reader.Reads.member h hlist, rfl⟩

theorem ValueSpelledBy.starts {w : Written} {cs : List Char} (h : ValueSpelledBy item w cs) :
    ∃ c t, cs = c :: t ∧ Starts c := by
  cases h with
  | number hnumber =>
    obtain ⟨c, t, rfl, hc⟩ := hnumber.start
    refine ⟨c, t, rfl, ?_⟩
    rcases hc with rfl | hc
    · decide
    · exact starts_of_digit hc
  | _ => exact ⟨_, _, rfl, by decide⟩

theorem valueReader_reads (depth : Nat) :
    (valueReader depth).Reads (Written.SpelledWithin depth) := by
  induction depth with
  | zero =>
    refine ⟨?_, fun hw hr => readValue_of_spelled .none hw hr, fun hw => hw.starts⟩
    intro s w r hread
    obtain ⟨cs, hs, hw⟩ := readValue_spelled .none hread
    exact ⟨[], cs, gap_nil, hs, hw⟩
  | succ depth ih =>
    refine ⟨?_, fun hw hr => readValue_of_spelled (.some ih) hw hr, fun hw => hw.starts⟩
    intro s w r hread
    obtain ⟨cs, hs, hw⟩ := readValue_spelled (.some ih) hread
    exact ⟨[], cs, gap_nil, hs, hw⟩

end Values

theorem document_eq_ok {s : List Char} {w : Written} : document s = .ok w ↔
    ∃ before cs after, s = before ++ (cs ++ after) ∧ Gap before ∧ Gap after ∧
      w.SpelledWithin greatestDepth cs := by
  have hreads := valueReader_reads greatestDepth
  constructor
  · intro h
    obtain ⟨⟨w', r⟩, hread, hrest⟩ := except_bind_eq_ok.mp h
    obtain ⟨before, cs, hbefore, hs, hw⟩ := hreads.afterSpaces.spelled hread
    obtain ⟨after, hafter, hr⟩ := exists_gap r
    dsimp only at hrest
    split at hrest
    · rename_i hnil
      rw [hnil, List.append_nil] at hr
      obtain rfl := except_pure_eq_ok.mp hrest
      exact ⟨before, cs, r, hs, hbefore, hr ▸ hafter, hw⟩
    · exact (except_throw_eq_ok.mp hrest).elim
  · intro h
    obtain ⟨before, cs, after, rfl, hbefore, hafter, hw⟩ := h
    have hskip : skipSpaces (after ++ []) = [] := skipSpaces_append hafter (stops_nil _)
    rw [List.append_nil] at hskip
    have hends := hafter.endsNumber (stops_nil _)
    rw [List.append_nil] at hends
    refine except_bind_eq_ok.mpr ⟨_, hreads.afterGap hbefore hw hends, ?_⟩
    dsimp only
    rw [hskip]
    rfl

/-- A text is read as a document exactly if it spells it. -/
theorem Written.ofText_eq_ok {text : String} {w : Written} :
    ofText text = .ok w ↔ w.SpelledBy text := by
  rw [ofText, except_mapError_eq_ok, document_eq_ok]
  rfl

/-- A text spells one document at most. -/
theorem Written.SpelledBy.unique {text : String} {w w' : Written} (h : w.SpelledBy text)
    (h' : w'.SpelledBy text) : w = w' :=
  Except.ok.inj ((ofText_eq_ok.mpr h).symm.trans (ofText_eq_ok.mpr h'))

end SeedTables.Json
