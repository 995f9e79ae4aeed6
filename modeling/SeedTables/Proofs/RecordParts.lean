import Mathlib.Data.List.Forall2
import Mathlib.Data.List.Pairwise
import SeedTables.Except
import SeedTables.Schema.Shape

namespace SeedTables

open Json (Value Members)

variable {α : Type}

theorem except_mapM_eq_ok_iff_forall₂ {ε β : Type} {f : α → Except ε β} {xs : List α}
    {ys : List β} : xs.mapM f = .ok ys ↔ List.Forall₂ (fun x y => f x = .ok y) xs ys := by
  rw [except_mapM_eq_ok, ← List.forall₂_eq_eq_eq, List.forall₂_map_left_iff,
    List.forall₂_map_right_iff]

/-- The values of the members that have one of some names. -/
def Member.named (names : List String) (ms : Members) : List Value :=
  (ms.filter fun m => m.1 ∈ names).map Prod.snd

namespace Json.Value

/-- A record and its part of some names and a place, or that the part is left out. Members that
share the names leave an object without either. -/
inductive HasPart (names : List String) (place : Nat) : Value → Option Value → Prop
  | object {ms : Members} {part : Option Value} (named : Member.named names ms = part.toList) :
    HasPart names place (.object ms) part
  | array {vs : List Value} {part : Option Value} (element : vs[place]? = part) :
    HasPart names place (.array vs) part

theorem hasPart_object {names : List String} {place : Nat} {ms : Members} {part : Option Value} :
    (Value.object ms).HasPart names place part ↔ Member.named names ms = part.toList := by
  constructor
  · intro h
    cases h
    assumption
  · exact .object

theorem hasPart_array {names : List String} {place : Nat} {vs : List Value} {part : Option Value} :
    (Value.array vs).HasPart names place part ↔ vs[place]? = part := by
  constructor
  · intro h
    cases h
    assumption
  · exact .array

/-- The part is there, and stands for `x`. -/
def Needs (v : Value) (names : List String) (place : Nat) (form : Value → α → Prop) (x : α) : Prop :=
  ∃ part, v.HasPart names place (some part) ∧ form part x

/-- The part stands for `x`, or is left out where `x` is the default. -/
def Allows (v : Value) (names : List String) (place : Nat) (default : α) (form : Value → α → Prop)
    (x : α) : Prop :=
  (v.HasPart names place none ∧ x = default) ∨ v.Needs names place form x

/-- An object, or an array of so many elements. -/
inductive Fits (least most : Nat) : Value → Prop
  | object (ms : Members) : Fits least most (.object ms)
  | array {vs : List Value} (enough : least ≤ vs.length) (noMore : vs.length ≤ most) :
    Fits least most (.array vs)

theorem Fits.length_le {least most : Nat} {vs : List Value}
    (h : (Value.array vs).Fits least most) : vs.length ≤ most := by
  cases h with
  | array _ noMore => exact noMore

/-- The value that `x` is written as. -/
def Writes (write : α → Value) (v : Value) (x : α) : Prop := v = write x

/-- Null, which stands for nothing, or a value of a form. -/
inductive OrNull (form : Value → α → Prop) : Value → Option α → Prop
  | null : OrNull form .null none
  | value {v : Value} {x : α} (notNull : v ≠ .null) (stands : form v x) :
    OrNull form v (some x)

/-- An array of elements that all have a form. -/
inductive ListOf (form : Value → α → Prop) : Value → List α → Prop
  | array {vs : List Value} {xs : List α} (each : List.Forall₂ form vs xs) :
    ListOf form (.array vs) xs

/-- A reading that accepts the values of a form, and takes them for what they stand for. -/
def Decodes (decode : Value → Except ShapeError α) (form : Value → α → Prop) : Prop :=
  ∀ v x, decode v = .ok x ↔ form v x

variable {decode : Value → Except ShapeError α} {form : Value → α → Prop}

theorem decodes_asString : Decodes asString (Writes .string) := by
  intro v s
  cases v <;> simp [asString, Writes]

theorem decodes_asBool : Decodes asBool (Writes .bool) := by
  intro v b
  cases v <;> simp [asBool, Writes]

theorem decodes_asRow : Decodes asRow (Writes .object) := by
  intro v ms
  cases v <;> simp [asRow, Writes]

theorem decodes_ok : Decodes Except.ok (Writes id) := by
  intro v w
  simp [Writes]

theorem Decodes.asOption (h : Decodes decode form) : Decodes (asOption decode) (OrNull form) := by
  have hvalue : ∀ v o, v ≠ .null → ((decode v).map some = .ok o ↔ OrNull form v o) := by
    intro v o hv
    rw [except_map_eq_ok]
    constructor
    · rintro ⟨x, hx, rfl⟩
      exact .value hv ((h v x).mp hx)
    · intro ho
      cases ho with
      | null => exact absurd rfl hv
      | value _ hx => exact ⟨_, (h v _).mpr hx, rfl⟩
  intro v o
  cases v with
  | null =>
    constructor
    · intro ho
      cases ho
      exact .null
    · intro ho
      cases ho with
      | null => rfl
      | value hv => exact absurd rfl hv
  | _ => exact hvalue _ o (by simp)

theorem Decodes.asList (h : Decodes decode form) : Decodes (asList decode) (ListOf form) := by
  have hform : (fun v x => decode v = .ok x) = form := by
    funext v x
    exact propext (h v x)
  intro v xs
  cases v with
  | array vs =>
    have heach : vs.mapM decode = .ok xs ↔ List.Forall₂ form vs xs := by
      rw [except_mapM_eq_ok_iff_forall₂, hform]
    constructor
    · intro hxs
      exact .array (heach.mp hxs)
    · rintro ⟨hxs⟩
      exact heach.mpr hxs
  | _ =>
    simp only [Value.asList, reduceCtorEq, false_iff]
    intro hxs
    cases hxs

theorem listOf_writes {write : α → Value} {v : Value} {xs : List α} :
    ListOf (Writes write) v xs ↔ v = .array (xs.map write) := by
  have hform : Writes write = fun v x => v = write x := rfl
  constructor
  · intro h
    cases h with
    | array each =>
      rw [hform, ← List.forall₂_map_right_iff, List.forall₂_eq_eq_eq] at each
      rw [each]
  · rintro rfl
    refine .array ?_
    rw [hform, ← List.forall₂_map_right_iff, List.forall₂_eq_eq_eq]

end Json.Value

open Json.Value (Decodes)

section Elements

variable {decode : Value → Except ShapeError α} {form : Value → α → Prop} {record : Record}
  {vs : List Value} {i : Nat} {names : List String} {x : α}

theorem Element.required_eq_ok (h : Decodes decode form) :
    Element.required record vs i decode = .ok x ↔ (Value.array vs).Needs names i form x := by
  unfold Element.required
  constructor
  · intro hx
    split at hx
    · rename_i v hv
      exact ⟨v, .array hv, (h v x).mp hx⟩
    · cases hx
  · rintro ⟨v, hv, hx⟩
    rw [Value.hasPart_array.mp hv]
    exact (h v x).mpr hx

theorem Element.optional_eq_ok {default : α} (h : Decodes decode form) :
    Element.optional vs i default decode = .ok x ↔
      (Value.array vs).Allows names i default form x := by
  unfold Element.optional
  constructor
  · intro hx
    split at hx
    · rename_i v hv
      exact .inr ⟨v, .array hv, (h v x).mp hx⟩
    · rename_i hnone
      exact .inl ⟨.array hnone, (Except.ok.inj hx).symm⟩
  · rintro (⟨hnone, rfl⟩ | ⟨v, hv, hx⟩)
    · rw [Value.hasPart_array.mp hnone]
    · rw [Value.hasPart_array.mp hv]
      exact (h v x).mpr hx

/-- An array that has an element at a place is longer than that. -/
theorem Element.lt_of_required (h : Element.required record vs i decode = .ok x) :
    i < vs.length := by
  unfold Element.required at h
  split at h
  · rename_i v hv
    exact (List.getElem?_eq_some_iff.mp hv).1
  · cases h

end Elements

theorem Json.Value.decodes_asRecord {record : Record} {ofMembers : Members → Except ShapeError α}
    {ofElements : List Value → Except ShapeError α} {form : Value → α → Prop} {least : Nat}
    (size : ∀ v x, form v x → v.Fits least record.size)
    (objects : ∀ ms x, ofMembers ms = .ok x ↔ form (.object ms) x)
    (arrays : ∀ vs x, ofElements vs = .ok x ∧ vs.length ≤ record.size ↔ form (.array vs) x) :
    Decodes (asRecord record ofMembers ofElements) form := by
  intro v x
  cases v with
  | object ms => exact objects ms x
  | array vs =>
    rw [← arrays]
    cases hx : ofElements vs with
    | error e => simp [asRecord, hx, bind, Except.bind]
    | ok y =>
      by_cases h : record.size < vs.length
      · simp [asRecord, hx, bind, Except.bind, h, throw, throwThe, MonadExceptOf.throw]
      · simp [asRecord, hx, bind, Except.bind, h, pure, Except.pure, Nat.not_lt.mp h]
  | _ =>
    simp only [asRecord, reduceCtorEq, false_iff]
    intro hx
    cases size _ _ hx

namespace Member

variable {m : String × Value} {ms : Members}

section Takes

variable {names : List String} {form : Value → α → Prop} {before after : Option α}

theorem named_cons_of_mem (h : m.1 ∈ names) : named names (m :: ms) = m.2 :: named names ms := by
  simp [named, h]

theorem named_cons_of_not_mem (h : m.1 ∉ names) : named names (m :: ms) = named names ms := by
  simp [named, h]

/-- What a list of members does to what has been found of a part: they do not name it, or one of
them does, which is the first that has been found. -/
def Takes (names : List String) (form : Value → α → Prop) (ms : Members)
    (before after : Option α) : Prop :=
  (named names ms = [] ∧ after = before) ∨
    (before = none ∧ ∃ v x, named names ms = [v] ∧ form v x ∧ after = some x)

theorem takes_nil : Takes names form [] before after ↔ after = before := by
  simp [Takes, named]

theorem takes_cons_of_not_mem (h : m.1 ∉ names) :
    Takes names form (m :: ms) before after ↔ Takes names form ms before after := by
  rw [Takes, Takes, named_cons_of_not_mem h]

theorem takes_some {x : α} :
    Takes names form ms (some x) after ↔ named names ms = [] ∧ after = some x := by
  simp [Takes]

theorem takes_cons_of_mem (h : m.1 ∈ names) : Takes names form (m :: ms) before after ↔
    before = none ∧ ∃ x, form m.2 x ∧ Takes names form ms (some x) after := by
  simp only [takes_some]
  rw [Takes, named_cons_of_mem h]
  constructor
  · rintro (⟨hnil, _⟩ | ⟨hnone, v, x, hv, hx, hafter⟩)
    · cases hnil
    · obtain ⟨rfl, hnil⟩ := List.cons.inj hv
      exact ⟨hnone, x, hx, hnil, hafter⟩
  · rintro ⟨hnone, x, hx, hnil, hafter⟩
    exact .inr ⟨hnone, m.2, x, by rw [hnil], hx, hafter⟩

theorem takes_none_some {place : Nat} {x : α} :
    Takes names form ms none (some x) ↔ (Value.object ms).Needs names place form x := by
  constructor
  · rintro (⟨_, hnone⟩ | ⟨_, v, y, hv, hy, hx⟩)
    · cases hnone
    · obtain rfl := Option.some.inj hx
      exact ⟨v, .object hv, hy⟩
  · rintro ⟨v, hv, hx⟩
    exact .inr ⟨rfl, v, x, Value.hasPart_object.mp hv, hx, rfl⟩

theorem takes_none_getD {place : Nat} {default x : α} :
    (∃ found, Takes names form ms none found ∧ found.getD default = x) ↔
      (Value.object ms).Allows names place default form x := by
  constructor
  · rintro ⟨found, htakes, rfl⟩
    cases found with
    | none =>
      rcases htakes with ⟨hnil, _⟩ | ⟨_, _, _, _, _, hnone⟩
      · exact .inl ⟨.object hnil, rfl⟩
      · cases hnone
    | some x => exact .inr (takes_none_some.mp htakes)
  · rintro (⟨hnil, rfl⟩ | hx)
    · exact ⟨none, .inl ⟨Value.hasPart_object.mp hnil, rfl⟩, rfl⟩
    · exact ⟨some x, takes_none_some.mpr hx, rfl⟩

theorem fill_map_eq_ok {β : Type} {name : String} {found : Option α} {value : Except ShapeError α}
    {f : Option α → β} {b : β} :
    (fill name found value).map f = .ok b ↔ found = none ∧ ∃ x, value = .ok x ∧ f (some x) = b := by
  cases found with
  | some y => simp [fill, Except.map]
  | none => cases value <;> simp [fill, Except.map]

theorem required_eq_ok {name : String} {found : Option α} {x : α} :
    required name found = .ok x ↔ found = some x := by
  cases found <;> simp [required]

end Takes

section Alike

/-- Lists with the same members of some names, in whatever order, and with any other members. -/
def Alike (names : List String) (ms ms' : Members) : Prop :=
  (ms.filter fun m => m.1 ∈ names).Perm (ms'.filter fun m => m.1 ∈ names)

/-- A reading of objects that depends on the members of some names only, and not on their order. -/
def ReadsOnly (names : List String) (decode : Value → Except ShapeError α) : Prop :=
  ∀ ms ms', Alike names ms ms' → ∀ x, decode (.object ms) = .ok x ↔ decode (.object ms') = .ok x

variable {all names : List String} {ms' : Members} {place : Nat} {form : Value → α → Prop} {x : α}

theorem Alike.symm (h : Alike names ms ms') : Alike names ms' ms := List.Perm.symm h

theorem Alike.named (h : Alike all ms ms') (hnames : names ⊆ all) :
    (named names ms).Perm (named names ms') := by
  have hfilter : ∀ ms : Members, (ms.filter fun m => m.1 ∈ names) =
      (ms.filter fun m => m.1 ∈ all).filter fun m => m.1 ∈ names := by
    intro ms
    rw [List.filter_filter]
    refine List.filter_congr fun m _ => ?_
    have himp : m.1 ∈ names → m.1 ∈ all := fun hm => hnames hm
    simpa using himp
  rw [Member.named, Member.named, hfilter ms, hfilter ms']
  exact (List.Perm.filter _ h).map Prod.snd

theorem Alike.hasPart (h : Alike all ms ms') (hnames : names ⊆ all) {part : Option Value}
    (hp : (Value.object ms).HasPart names place part) :
    (Value.object ms').HasPart names place part := by
  have hperm := h.named hnames
  rw [Value.hasPart_object.mp hp] at hperm
  refine .object ?_
  cases part with
  | none => exact hperm.nil_eq.symm
  | some v => exact hperm.singleton_eq.symm

theorem Alike.needs (h : Alike all ms ms') (hnames : names ⊆ all)
    (hx : (Value.object ms).Needs names place form x) :
    (Value.object ms').Needs names place form x := by
  obtain ⟨part, hpart, hform⟩ := hx
  exact ⟨part, h.hasPart hnames hpart, hform⟩

theorem Alike.allows (h : Alike all ms ms') (hnames : names ⊆ all) {default : α}
    (hx : (Value.object ms).Allows names place default form x) :
    (Value.object ms').Allows names place default form x := by
  rcases hx with ⟨hnone, hdefault⟩ | hx
  · exact .inl ⟨h.hasPart hnames hnone, hdefault⟩
  · exact .inr (h.needs hnames hx)

theorem ReadsOnly.of_form {decode : Value → Except ShapeError α} (hdecode : Decodes decode form)
    (hform : ∀ ms ms' x, Alike names ms ms' → form (.object ms) x → form (.object ms') x) :
    ReadsOnly names decode := by
  intro ms ms' h x
  rw [hdecode, hdecode]
  exact ⟨hform ms ms' x h, hform ms' ms x h.symm⟩

end Alike

/-- A field of a draft: the names of the members that go into it, their form, and where the draft
keeps it. -/
structure Field (δ : Type) where
  {α : Type}
  name : String
  aliases : List String := []
  {decode : Value → Except ShapeError α}
  {form : Value → α → Prop}
  decodes : Decodes decode form
  get : δ → Option α
  set : δ → Option α → δ
  get_set : ∀ d x, get (set d x) = x

namespace Field

variable {δ : Type}

def names (f : Field δ) : List String := f.name :: f.aliases

def add (f : Field δ) (d : δ) (m : String × Value) : Except ShapeError δ :=
  (fill f.name (f.get d) (f.decode m.2)).map (f.set d)

def Takes (f : Field δ) (ms : Members) (d d' : δ) : Prop :=
  Member.Takes f.names f.form ms (f.get d) (f.get d')

/-- Fields that have no name in common and are kept apart. -/
@[mk_iff]
structure Apart (f g : Field δ) : Prop where
  names : ∀ name ∈ f.names, name ∉ g.names
  left : ∀ d x, f.get (g.set d x) = f.get d
  right : ∀ d x, g.get (f.set d x) = g.get d

instance : Std.Symm (@Apart δ) where
  symm _ _ h := ⟨fun name hg hf => h.names name hf hg, h.right, h.left⟩

theorem add_eq_ok {f : Field δ} {d d' : δ} {m : String × Value} :
    f.add d m = .ok d' ↔ f.get d = none ∧ ∃ x, f.form m.2 x ∧ f.set d (some x) = d' := by
  unfold add
  rw [fill_map_eq_ok]
  simp only [f.decodes m.2 _]

end Field

/-- A member goes into the first field that it names, and is passed over if there is none. -/
def addTo {δ : Type} : List (Field δ) → δ → String × Value → Except ShapeError δ
  | [], d, _ => .ok d
  | f :: fields, d, m => if m.1 ∈ f.names then f.add d m else addTo fields d m

/-- The fields that a draft is made of. -/
structure MadeOf (δ : Type) (fields : List (Field δ)) : Prop where
  apart : fields.Pairwise Field.Apart
  all : ∀ d d', (∀ f ∈ fields, f.get d = f.get d') → d = d'

namespace MadeOf

variable {δ : Type} {fields : List (Field δ)} {f g : Field δ} {d d' : δ}

theorem apart_of_ne (h : MadeOf δ fields) (hf : f ∈ fields) (hg : g ∈ fields) (hne : f ≠ g) :
    f.Apart g :=
  h.apart.forall hf hg hne

theorem addTo_of_mem (apart : fields.Pairwise Field.Apart) (hf : f ∈ fields)
    (hm : m.1 ∈ f.names) : addTo fields d m = f.add d m := by
  induction fields with
  | nil => cases hf
  | cons g fields ih =>
    obtain ⟨hg, hrest⟩ := List.pairwise_cons.mp apart
    rcases List.mem_cons.mp hf with rfl | hf
    · rw [addTo, if_pos hm]
    · have hnames : m.1 ∉ g.names := fun hmg => (hg f hf).names _ hmg hm
      rw [addTo, if_neg hnames, ih hrest hf]

theorem addTo_of_not_mem (hm : ∀ f ∈ fields, m.1 ∉ f.names) : addTo fields d m = .ok d := by
  induction fields with
  | nil => rfl
  | cons f fields ih =>
    rw [List.forall_mem_cons] at hm
    rw [addTo, if_neg hm.1, ih hm.2]

/-- A member that names a field goes into it, if nothing is there, and leaves the others as they
are to the members behind it. -/
theorem takes_cons (h : MadeOf δ fields) (hf : f ∈ fields) (hm : m.1 ∈ f.names) :
    (∀ g ∈ fields, g.Takes (m :: ms) d d') ↔ f.get d = none ∧
      ∃ x, f.form m.2 x ∧ ∀ g ∈ fields, g.Takes ms (f.set d (some x)) d' := by
  have hother : ∀ g ∈ fields, g ≠ f → ∀ x,
      (g.Takes (m :: ms) d d' ↔ g.Takes ms (f.set d (some x)) d') := by
    intro g hg hne x
    have hapart := h.apart_of_ne hg hf hne
    have hnames : m.1 ∉ g.names := fun hmg => hapart.names _ hmg hm
    rw [Field.Takes, Field.Takes, takes_cons_of_not_mem hnames, hapart.left]
  constructor
  · intro htakes
    obtain ⟨hnone, x, hx, hrest⟩ := (takes_cons_of_mem hm).mp (htakes f hf)
    refine ⟨hnone, x, hx, fun g hg => ?_⟩
    by_cases hne : g = f
    · subst hne
      rwa [Field.Takes, g.get_set]
    · exact (hother g hg hne x).mp (htakes g hg)
  · rintro ⟨hnone, x, hx, hrest⟩ g hg
    by_cases hne : g = f
    · subst hne
      have htakes := hrest g hg
      rw [Field.Takes, g.get_set] at htakes
      exact (takes_cons_of_mem hm).mpr ⟨hnone, x, hx, htakes⟩
    · exact (hother g hg hne x).mpr (hrest g hg)

/-- Members are taken into a draft exactly if each field takes those of its names. -/
theorem foldlM_eq_ok (h : MadeOf δ fields) :
    ms.foldlM (addTo fields) d = .ok d' ↔ ∀ f ∈ fields, f.Takes ms d d' := by
  induction ms generalizing d with
  | nil =>
    rw [List.foldlM_nil, except_pure_eq_ok]
    simp only [Field.Takes, takes_nil]
    constructor
    · rintro rfl f hf
      rfl
    · intro hd
      exact h.all d d' fun f hf => (hd f hf).symm
  | cons m ms ih =>
    rw [List.foldlM_cons, except_bind_eq_ok]
    by_cases hm : ∃ f ∈ fields, m.1 ∈ f.names
    · obtain ⟨f, hf, hm⟩ := hm
      rw [h.takes_cons hf hm, addTo_of_mem h.apart hf hm]
      simp only [Field.add_eq_ok, ih]
      constructor
      · rintro ⟨d₁, ⟨hnone, x, hx, rfl⟩, hrest⟩
        exact ⟨hnone, x, hx, hrest⟩
      · rintro ⟨hnone, x, hx, hrest⟩
        exact ⟨_, ⟨hnone, x, hx, rfl⟩, hrest⟩
    · have hnames : ∀ f ∈ fields, m.1 ∉ f.names := fun f hf hmf => hm ⟨f, hf, hmf⟩
      rw [addTo_of_not_mem hnames]
      have hcons : (∀ f ∈ fields, f.Takes (m :: ms) d d') ↔ ∀ f ∈ fields, f.Takes ms d d' :=
        forall₂_congr fun f hf => takes_cons_of_not_mem (hnames f hf)
      rw [hcons, ← ih]
      simp

end MadeOf

end Member
end SeedTables
