namespace SeedTables

variable {ε ε' α β : Type}

/-- An element of a list with only good ones before it. -/
def AfterOnly (good : α → Prop) (xs : List α) (x : α) : Prop :=
  ∃ before after, xs = before ++ x :: after ∧ ∀ y ∈ before, good y

section AfterOnly

variable {good good' : α → Prop} {xs : List α} {x : α}

theorem AfterOnly.mem (h : AfterOnly good xs x) : x ∈ xs := by
  obtain ⟨before, after, rfl, _⟩ := h
  simp

theorem afterOnly_congr (h : ∀ y, good y ↔ good' y) :
    AfterOnly good xs x ↔ AfterOnly good' xs x := by
  simp only [AfterOnly, h]

theorem find?_eq_some_afterOnly {p : α → Bool} :
    xs.find? p = some x ↔ p x = true ∧ AfterOnly (fun y => p y = false) xs x := by
  simp [List.find?_eq_some_iff_append, AfterOnly]

theorem findSome?_eq_some_afterOnly {f : α → Option β} {b : β} :
    xs.findSome? f = some b ↔ ∃ x, AfterOnly (fun y => f y = none) xs x ∧ f x = some b := by
  rw [List.findSome?_eq_some_iff]
  constructor
  · rintro ⟨before, x, after, hxs, hx, hbefore⟩
    exact ⟨x, ⟨before, after, hxs, hbefore⟩, hx⟩
  · rintro ⟨x, ⟨before, after, hxs, hbefore⟩, hx⟩
    exact ⟨before, x, after, hxs, hx, hbefore⟩

end AfterOnly

theorem except_bind_eq_ok {x : Except ε α} {f : α → Except ε β} {b : β} :
    (x >>= f) = .ok b ↔ ∃ a, x = .ok a ∧ f a = .ok b := by
  cases x with
  | error e => simp [bind, Except.bind]
  | ok a => simp [bind, Except.bind]

theorem except_bind_eq_error {x : Except ε α} {f : α → Except ε β} {e : ε} :
    (x >>= f) = .error e ↔ x = .error e ∨ ∃ a, x = .ok a ∧ f a = .error e := by
  cases x with
  | error e => simp [bind, Except.bind]
  | ok a => simp [bind, Except.bind]

theorem except_pure_eq_error {a : α} {e : ε} : (pure a : Except ε α) = .error e ↔ False := by
  simp [pure, Except.pure]

theorem except_pure_eq_ok {a b : α} : (pure a : Except ε α) = .ok b ↔ a = b := by
  simp [pure, Except.pure]

theorem except_throw_eq_ok {e : ε} {b : α} : (throw e : Except ε α) = .ok b ↔ False := by
  simp [throw, throwThe, MonadExceptOf.throw]

theorem except_map_eq_ok {x : Except ε α} {f : α → β} {b : β} :
    x.map f = .ok b ↔ ∃ a, x = .ok a ∧ f a = b := by
  cases x <;> simp [Except.map]

theorem except_map_eq_error {x : Except ε α} {f : α → β} {e : ε} :
    x.map f = .error e ↔ x = .error e := by
  cases x <;> simp [Except.map]

theorem except_mapError_ok {f : ε → ε'} {a : α} : (.ok a : Except ε α).mapError f = .ok a := rfl

theorem except_mapError_error {f : ε → ε'} {e : ε} :
    (.error e : Except ε α).mapError f = .error (f e) := rfl

theorem except_mapError_eq_ok {x : Except ε α} {f : ε → ε'} {a : α} :
    x.mapError f = .ok a ↔ x = .ok a := by
  cases x with
  | error e => simp [except_mapError_error]
  | ok b => simp [except_mapError_ok]

theorem except_mapError_eq_error {x : Except ε α} {f : ε → ε'} {e : ε'} :
    x.mapError f = .error e ↔ ∃ e', x = .error e' ∧ f e' = e := by
  cases x with
  | error e' => simp [except_mapError_error]
  | ok b => simp [except_mapError_ok]

theorem except_mapM_eq_ok {f : α → Except ε β} {xs : List α} {ys : List β} :
    xs.mapM f = .ok ys ↔ xs.map f = ys.map .ok := by
  induction xs generalizing ys with
  | nil => cases ys <;> simp [pure, Except.pure]
  | cons x xs ih =>
    simp only [List.mapM_cons, except_bind_eq_ok, except_pure_eq_ok, ih]
    constructor
    · rintro ⟨y, hy, rest, hrest, rfl⟩
      simp [hy, hrest]
    · intro h
      cases ys with
      | nil => simp at h
      | cons y ys =>
        simp only [List.map_cons, List.cons.injEq] at h
        exact ⟨y, h.1, ys, h.2, rfl⟩

theorem except_mapM_mem {f : α → Except ε β} {xs : List α} {ys : List β} {y : β}
    (h : xs.mapM f = .ok ys) (hy : y ∈ ys) : ∃ x ∈ xs, f x = .ok y := by
  have hm : .ok y ∈ ys.map (Except.ok (ε := ε)) := List.mem_map.mpr ⟨y, hy, rfl⟩
  rw [← except_mapM_eq_ok.mp h] at hm
  exact List.mem_map.mp hm

theorem except_mapM_each {f : α → Except ε β} {xs : List α} {ys : List β} {x : α}
    (h : xs.mapM f = .ok ys) (hx : x ∈ xs) : ∃ y, f x = .ok y := by
  have hm : f x ∈ xs.map f := List.mem_map.mpr ⟨x, hx, rfl⟩
  rw [except_mapM_eq_ok.mp h] at hm
  obtain ⟨y, _, hy⟩ := List.mem_map.mp hm
  exact ⟨y, hy.symm⟩

theorem except_mapM_eq_error {f : α → Except ε β} {xs : List α} {e : ε} :
    xs.mapM f = .error e ↔ ∃ before x after, xs = before ++ x :: after ∧
      (∀ y ∈ before, ∃ b, f y = .ok b) ∧ f x = .error e := by
  induction xs with
  | nil => simp [pure, Except.pure]
  | cons x xs ih =>
    simp only [List.mapM_cons, except_bind_eq_error, except_pure_eq_error, and_false,
      exists_false, or_false, ih]
    constructor
    · rintro (hx | ⟨b, hx, before, y, after, rfl, hb, hy⟩)
      · exact ⟨[], x, xs, rfl, by simp, hx⟩
      · exact ⟨x :: before, y, after, rfl, by simpa using ⟨⟨b, hx⟩, hb⟩, hy⟩
    · rintro ⟨before, y, after, hxs, hb, hy⟩
      cases before with
      | nil =>
        cases hxs
        exact .inl hy
      | cons z before =>
        cases hxs
        obtain ⟨b, hx⟩ := hb x (by simp)
        exact .inr ⟨b, hx, before, y, after, rfl, fun w hw => hb w (by simp [hw]), hy⟩

theorem except_mapM_eq_error_afterOnly {f : α → Except ε β} {xs : List α} {e : ε} :
    xs.mapM f = .error e ↔ ∃ x, AfterOnly (fun y => ∃ b, f y = .ok b) xs x ∧ f x = .error e := by
  rw [except_mapM_eq_error]
  constructor
  · rintro ⟨before, x, after, hxs, hbefore, hx⟩
    exact ⟨x, ⟨before, after, hxs, hbefore⟩, hx⟩
  · rintro ⟨x, ⟨before, after, hxs, hbefore⟩, hx⟩
    exact ⟨before, x, after, hxs, hbefore, hx⟩

theorem except_mapM_exists_ok {f : α → Except ε β} {xs : List α} :
    (∃ ys, xs.mapM f = .ok ys) ↔ ∀ x ∈ xs, ∃ y, f x = .ok y := by
  constructor
  · rintro ⟨ys, h⟩ x hx
    exact except_mapM_each h hx
  · intro h
    cases hm : xs.mapM f with
    | ok ys => exact ⟨ys, rfl⟩
    | error e =>
      obtain ⟨x, hfirst, hx⟩ := except_mapM_eq_error_afterOnly.mp hm
      obtain ⟨y, hy⟩ := h x hfirst.mem
      rw [hy] at hx
      cases hx

theorem except_mapM_congr {f g : α → Except ε β} {xs : List α} (h : ∀ x ∈ xs, f x = g x) :
    xs.mapM f = xs.mapM g := by
  induction xs with
  | nil => rfl
  | cons x xs ih =>
    rw [List.mapM_cons, List.mapM_cons, h x List.mem_cons_self,
      ih fun y hy => h y (List.mem_cons_of_mem x hy)]

/-- Steps that may give nothing, and what they give, are the steps at the elements that count. -/
theorem except_mapM_filterMap {γ : Type} {f : α → Except ε (Option β)} {g : γ → Except ε β}
    {pick : α → Option γ} {xs : List α}
    (h : ∀ x ∈ xs, f x = (pick x).elim (.ok none) fun y => (g y).map some) :
    (xs.mapM f).map (List.filterMap id) = (xs.filterMap pick).mapM g := by
  induction xs with
  | nil => rfl
  | cons x xs ih =>
    have hrest := ih fun y hy => h y (List.mem_cons_of_mem x hy)
    rw [List.mapM_cons, h x List.mem_cons_self]
    cases hpick : pick x with
    | none =>
      rw [List.filterMap_cons_none hpick, ← hrest]
      cases hxs : xs.mapM f <;> rfl
    | some y =>
      rw [List.filterMap_cons_some hpick, List.mapM_cons, ← hrest, Option.elim_some]
      cases hy : g y with
      | error e => rfl
      | ok b => cases hxs : xs.mapM f <;> rfl

theorem except_mapM_skip {f : α → Except ε (Option β)} {before after : List α} {x : α}
    (h : f x = .ok none) :
    ((before ++ after).mapM f).map (List.filterMap id) =
      ((before ++ x :: after).mapM f).map (List.filterMap id) := by
  rw [List.mapM_append, List.mapM_append, List.mapM_cons, h]
  cases before.mapM f with
  | error e => rfl
  | ok found =>
    cases after.mapM f with
    | error e => rfl
    | ok rest => simp [bind, Except.bind, pure, Except.pure, Except.map]

/-- Computations with the same end: both give values that belong together, or both fail with errors
that do. -/
inductive SameEnd (errors : ε → ε → Prop) (values : α → α → Prop) :
    Except ε α → Except ε α → Prop
  | error {e e' : ε} (same : errors e e') : SameEnd errors values (.error e) (.error e')
  | ok {a b : α} (same : values a b) : SameEnd errors values (.ok a) (.ok b)

section SameEnd

variable {errors : ε → ε → Prop} {values : α → α → Prop}

theorem SameEnd.bind {next : β → β → Prop} {x y : Except ε α} {f g : α → Except ε β}
    (h : SameEnd errors values x y) (hfg : ∀ a b, values a b → SameEnd errors next (f a) (g b)) :
    SameEnd errors next (x >>= f) (y >>= g) := by
  cases h with
  | error same => exact .error same
  | ok same => exact hfg _ _ same

theorem SameEnd.mapM {f g : α → Except ε β} {xs : List α}
    (h : ∀ x ∈ xs, SameEnd errors Eq (f x) (g x)) :
    SameEnd errors Eq (xs.mapM f) (xs.mapM g) := by
  induction xs with
  | nil => exact .ok rfl
  | cons x xs ih =>
    rw [List.mapM_cons, List.mapM_cons]
    refine (h x List.mem_cons_self).bind fun a b hab => ?_
    refine (ih fun y hy => h y (List.mem_cons_of_mem x hy)).bind fun as bs hs => ?_
    exact .ok (by rw [hab, hs])

end SameEnd

end SeedTables
