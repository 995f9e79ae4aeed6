import Mathlib.Data.List.Basic
import Mathlib.Tactic.SplitIfs
import SeedTables.Proofs.JoinedPaths
import SeedTables.RawPath

namespace SeedTables

namespace Text

theorem readOn_cons (begun : Option Begun) {b : Nat} (h : b < 256) (bs : List UInt8) :
    readOn begun (UInt8.ofNat b :: bs) =
      (readNext b begun).1 ++ readOn (readNext b begun).2 bs := by
  have hb : (UInt8.ofNat b).toNat = b := by
    rw [UInt8.toNat_ofNat', Nat.mod_eq_of_lt h]
  have hcons : readOn begun (UInt8.ofNat b :: bs) =
      (readNext (UInt8.ofNat b).toNat begun).1 ++
        readOn (readNext (UInt8.ofNat b).toNat begun).2 bs := by
    cases begun <;> rfl
  rw [hcons, hb]

section Tails

variable {bits low high n : Nat} (rest : List UInt8)
  (h : low ≤ n % 64 + 128 ∧ n % 64 + 128 ≤ high)

include h

/-- The bytes behind the first one hold six bits each. -/
theorem readOn_tail {k : Nat} :
    readOn (some { bits, missing := k + 2, low, high }) (UInt8.ofNat (n % 64 + 128) :: rest) =
      readOn (some { bits := bits * 64 + n % 64, missing := k + 1 }) rest := by
  have hmore : ¬ k + 2 = 1 := by omega
  rw [readOn_cons _ (by omega), readNext, if_pos h, if_neg hmore, Nat.add_sub_cancel]
  rfl

theorem readOn_lastTail :
    readOn (some { bits, missing := 1, low, high }) (UInt8.ofNat (n % 64 + 128) :: rest) =
      Char.ofNat (bits * 64 + n % 64) :: readOn none rest := by
  rw [readOn_cons _ (by omega), readNext, if_pos h, if_pos rfl, Nat.add_sub_cancel]
  rfl

end Tails

section FirstBytes

variable {v : Nat}

theorem readFirst_two (h : 128 ≤ v) (h' : v ≤ 2047) :
    readFirst (v / 64 % 32 + 192) = ([], some { bits := v / 64, missing := 1 }) := by
  have hbits : v / 64 % 32 + 192 - 0xC0 = v / 64 := by omega
  rw [readFirst, if_neg (by omega), if_neg (by omega), if_pos (by omega), hbits]

theorem readFirst_three (h : 2048 ≤ v) (h' : v ≤ 65535) : ∃ low high,
    readFirst (v / 4096 % 16 + 224) = ([], some { bits := v / 4096, missing := 2, low, high }) ∧
    ((v < 0xD800 ∨ 0xDFFF < v) → low ≤ v / 64 % 64 + 128 ∧ v / 64 % 64 + 128 ≤ high) := by
  have hbits : v / 4096 % 16 + 224 - 0xE0 = v / 4096 := by omega
  refine ⟨if v / 4096 % 16 + 224 = 0xE0 then 0xA0 else 0x80,
    if v / 4096 % 16 + 224 = 0xED then 0x9F else 0xBF, ?_, ?_⟩
  · rw [readFirst, if_neg (by omega), if_neg (by omega), if_neg (by omega), if_pos (by omega),
      hbits]
  · split_ifs <;> omega

theorem readFirst_four (h : 65536 ≤ v) (h' : v < 0x110000) : ∃ low high,
    readFirst (v / 262144 % 8 + 240) =
      ([], some { bits := v / 262144, missing := 3, low, high }) ∧
    low ≤ v / 4096 % 64 + 128 ∧ v / 4096 % 64 + 128 ≤ high := by
  have hbits : v / 262144 % 8 + 240 - 0xF0 = v / 262144 := by omega
  refine ⟨if v / 262144 % 8 + 240 = 0xF0 then 0x90 else 0x80,
    if v / 262144 % 8 + 240 = 0xF4 then 0x8F else 0xBF, ?_, ?_⟩
  · rw [readFirst, if_neg (by omega), if_neg (by omega), if_neg (by omega), if_neg (by omega),
      if_pos (by omega), hbits]
  · split_ifs <;> omega

end FirstBytes

theorem readOn_encoded (c : Char) (rest : List UInt8) :
    readOn none (String.utf8EncodeChar c ++ rest) = c :: readOn none rest := by
  unfold String.utf8EncodeChar
  generalize hv : c.val.toNat = v
  have hvalid : v < 0xD800 ∨ 0xDFFF < v ∧ v < 0x110000 := hv ▸ c.valid
  have hc : Char.ofNat v = c := hv ▸ Char.ofNat_toNat c
  rw [← hc]
  dsimp only
  split_ifs with hone htwo hthree
  · have hfirst : readFirst v = ([Char.ofNat v], none) := by
      rw [readFirst, if_pos (by omega)]
    rw [List.singleton_append, readOn_cons _ (by omega), readNext, hfirst]
    rfl
  · have hbits : v / 64 * 64 + v % 64 = v := by omega
    rw [List.cons_append, List.singleton_append, readOn_cons _ (by omega), readNext,
      readFirst_two (by omega) htwo, List.nil_append, readOn_lastTail rest (by omega), hbits]
  · obtain ⟨low, high, hfirst, hbounds⟩ := readFirst_three (v := v) (by omega) hthree
    have hbits : (v / 4096 * 64 + v / 64 % 64) * 64 + v % 64 = v := by omega
    rw [List.cons_append, List.cons_append, List.singleton_append, readOn_cons _ (by omega),
      readNext, hfirst, List.nil_append, readOn_tail _ (hbounds (by omega)),
      readOn_lastTail rest (by omega), hbits]
  · obtain ⟨low, high, hfirst, hbounds⟩ := readFirst_four (v := v) (by omega) (by omega)
    have hbits : ((v / 262144 * 64 + v / 4096 % 64) * 64 + v / 64 % 64) * 64 + v % 64 = v := by
      omega
    rw [List.cons_append, List.cons_append, List.cons_append, List.singleton_append,
      readOn_cons _ (by omega), readNext, hfirst, List.nil_append, readOn_tail _ hbounds,
      readOn_tail _ (by omega), readOn_lastTail rest (by omega), hbits]

/-- Bytes of a text read as the text. -/
theorem readBytes_bytes (cs : List Char) : readBytes (bytes cs) = cs := by
  unfold readBytes bytes
  induction cs with
  | nil => rfl
  | cons c cs ih => rw [List.flatMap_cons, readOn_encoded, ih]

theorem bytes_append (cs ds : List Char) : bytes (cs ++ ds) = bytes cs ++ bytes ds :=
  List.flatMap_append

theorem bytes_eq_nil {cs : List Char} : bytes cs = [] ↔ cs = [] := by
  constructor
  · intro h
    rw [← readBytes_bytes cs, h]
    rfl
  · rintro rfl
    rfl

/-- In a character of several bytes none of them is a slash. -/
theorem getLast?_encoded (c : Char) :
    (String.utf8EncodeChar c).getLast? = some 0x2F ↔ c = '/' := by
  have hslash : c = '/' ↔ c.val.toNat = 47 := Char.toNat_inj.symm
  have hbyte {n : Nat} (h : n < 256) : UInt8.ofNat n = 0x2F ↔ n = 47 := by
    rw [← UInt8.toNat_inj, UInt8.toNat_ofNat', Nat.mod_eq_of_lt h]
    rfl
  rw [hslash]
  unfold String.utf8EncodeChar
  generalize c.val.toNat = v
  dsimp only
  split_ifs
  · rw [List.getLast?_singleton, Option.some.injEq, hbyte (by omega)]
  · rw [List.getLast?_cons_cons, List.getLast?_singleton, Option.some.injEq, hbyte (by omega)]
    omega
  · rw [List.getLast?_cons_cons, List.getLast?_cons_cons, List.getLast?_singleton,
      Option.some.injEq, hbyte (by omega)]
    omega
  · rw [List.getLast?_cons_cons, List.getLast?_cons_cons, List.getLast?_cons_cons,
      List.getLast?_singleton, Option.some.injEq, hbyte (by omega)]
    omega

theorem getLast?_bytes (cs : List Char) :
    (bytes cs).getLast? = some 0x2F ↔ cs.getLast? = some '/' := by
  rcases List.eq_nil_or_concat cs with rfl | ⟨cs, c, rfl⟩
  · exact iff_of_false nofun nofun
  · have hlast : bytes [c] = String.utf8EncodeChar c := List.append_nil _
    have hne : String.utf8EncodeChar c ≠ [] := String.utf8EncodeChar_ne_nil
    rw [List.concat_eq_append, bytes_append, hlast, List.getLast?_append_of_ne_nil _ hne,
      getLast?_encoded, List.getLast?_concat, Option.some.injEq]

end Text

namespace RawPath

/-- A path that is text. -/
def IsText (p : RawPath) : Prop := ∃ path : String, p = path

variable {p q : RawPath} {path next : String}

theorem text_ofText (path : String) : (ofText path).text = path := by
  rw [text, ofText, Text.readBytes_bytes, String.ofList_toList]

theorem ofText_inj : ofText path = ofText next ↔ path = next := by
  constructor
  · intro h
    rw [← text_ofText path, h, text_ofText]
  · rintro rfl
    rfl

theorem IsText.text_inj (hp : p.IsText) (hq : q.IsText) (h : p.text = q.text) : p = q := by
  obtain ⟨path, rfl⟩ := hp
  obtain ⟨next, rfl⟩ := hq
  rw [text_ofText, text_ofText] at h
  rw [h]

theorem join_ofText (path next : String) :
    (ofText path).join next = ofText (Path.join path next) := by
  have hempty : (ofText path).bytes.isEmpty = true ↔ path.isEmpty = true := by
    rw [List.isEmpty_iff, ofText, Text.bytes_eq_nil, String.toList_eq_nil_iff, String.isEmpty_iff]
  have hlast : (ofText path).bytes.getLast? = some 0x2F ↔ path.toList.getLast? = some '/' :=
    Text.getLast?_bytes _
  have happend (text : String) :
      (⟨(ofText path).bytes ++ Text.bytes text.toList⟩ : RawPath) = ofText (path ++ text) := by
    rw [ofText, ofText, String.toList_append, Text.bytes_append]
  have hslash : 0x2F :: Text.bytes next.toList = Text.bytes ("/" ++ next).toList := by
    rw [String.toList_append, Text.bytes_append]
    rfl
  unfold join Path.join
  simp only [hempty, hlast, hslash, happend]
  split_ifs
  · rfl
  · rfl
  · rw [String.append_assoc]

end RawPath
end SeedTables
