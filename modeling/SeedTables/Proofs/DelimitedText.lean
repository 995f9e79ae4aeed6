namespace SeedTables.Text

/-- A rest in which nothing is left, or a stopping character is next. -/
def Stops (stop : Char → Prop) (rest : List Char) : Prop := ∀ c ∈ rest.head?, stop c

theorem stops_nil (stop : Char → Prop) : Stops stop [] := by
  simp [Stops]

theorem stops_cons {stop : Char → Prop} {c : Char} {rest : List Char} :
    Stops stop (c :: rest) ↔ stop c := by
  simp [Stops]

theorem stops_dropWhile (p : Char → Bool) (s : List Char) :
    Stops (p · = false) (s.dropWhile p) := by
  intro c hc
  have h := List.head?_dropWhile_not p s
  rw [Option.mem_def.mp hc] at h
  exact h

theorem takeWhile_append_of_stops {p : Char → Bool} {cs rest : List Char}
    (hcs : ∀ c ∈ cs, p c = true) (hrest : Stops (p · = false) rest) :
    (cs ++ rest).takeWhile p = cs := by
  rw [List.takeWhile_append_of_pos hcs]
  cases rest with
  | nil => simp
  | cons c rest => simp [stops_cons.mp hrest]

theorem dropWhile_append_of_stops {p : Char → Bool} {cs rest : List Char}
    (hcs : ∀ c ∈ cs, p c = true) (hrest : Stops (p · = false) rest) :
    (cs ++ rest).dropWhile p = rest := by
  rw [List.dropWhile_append_of_pos hcs]
  cases rest with
  | nil => simp
  | cons c rest => simp [stops_cons.mp hrest]

theorem append_inj_of_stops {p : Char → Prop} {xs ys rest rest' : List Char}
    (hx : ∀ c ∈ xs, ¬ p c) (hy : ∀ c ∈ ys, ¬ p c) (hr : Stops p rest)
    (hr' : Stops p rest') (h : xs ++ rest = ys ++ rest') : xs = ys ∧ rest = rest' := by
  induction xs generalizing ys with
  | nil =>
    cases ys with
    | nil => exact ⟨rfl, h⟩
    | cons c ys =>
      rw [List.nil_append, List.cons_append] at h
      subst h
      exact absurd (stops_cons.mp hr) (hy c List.mem_cons_self)
  | cons c xs ih =>
    cases ys with
    | nil =>
      rw [List.nil_append, List.cons_append] at h
      subst h
      exact absurd (stops_cons.mp hr') (hx c List.mem_cons_self)
    | cons d ys =>
      simp only [List.cons_append, List.cons.injEq] at h
      obtain ⟨rfl, h⟩ := h
      obtain ⟨rfl, hrest⟩ := ih (fun a ha => hx a (List.mem_cons_of_mem _ ha))
        (fun a ha => hy a (List.mem_cons_of_mem _ ha)) h
      exact ⟨rfl, hrest⟩

theorem append_inj_of_not_mem {stop : Char} {xs ys rest rest' : List Char} (hx : stop ∉ xs)
    (hy : stop ∉ ys) (hr : Stops (· = stop) rest) (hr' : Stops (· = stop) rest')
    (h : xs ++ rest = ys ++ rest') : xs = ys ∧ rest = rest' :=
  append_inj_of_stops (p := (· = stop)) (fun _ hc he => hx (he ▸ hc)) (fun _ hc he => hy (he ▸ hc))
    hr hr' h

theorem append_cons_inj {stop : Char} {xs ys rest rest' : List Char} (hx : stop ∉ xs)
    (hy : stop ∉ ys) (h : xs ++ stop :: rest = ys ++ stop :: rest') : xs = ys ∧ rest = rest' := by
  obtain ⟨hxy, hrest⟩ := append_inj_of_not_mem hx hy (stops_cons.mpr rfl) (stops_cons.mpr rfl) h
  exact ⟨hxy, (List.cons.inj hrest).2⟩

/-- Things of a kind whose texts can be told apart up to a stopping character. -/
def Delimited {α : Type} (good : α → Prop) (text : α → List Char) (stop : Char) : Prop :=
  ∀ x y rest rest', good x → good y → Stops (· = stop) rest → Stops (· = stop) rest' →
    text x ++ rest = text y ++ rest' → x = y ∧ rest = rest'

variable {α : Type} {good : α → Prop} {text : α → List Char} {stop : Char}

theorem delimited_of_not_mem (free : ∀ x, good x → stop ∉ text x)
    (inj : ∀ x y, good x → good y → text x = text y → x = y) : Delimited good text stop := by
  intro x y rest rest' hx hy hr hr' h
  obtain ⟨htext, hrest⟩ := append_inj_of_not_mem (free x hx) (free y hy) hr hr' h
  exact ⟨inj x y hx hy htext, hrest⟩

/-- A list by its first element; each of the others follows a separator. -/
theorem intercalate_map_cons (separator : List Char) (x : α) (xs : List α) :
    separator.intercalate ((x :: xs).map text) =
      text x ++ xs.flatMap fun y => separator ++ text y := by
  induction xs generalizing x with
  | nil => simp
  | cons y ys ih =>
    rw [List.map_cons, List.map_cons, List.intercalate_cons_cons, ← List.map_cons, ih]
    simp

theorem not_mem_intercalate {c : Char} {separator : List Char} {xs : List α} (hs : c ∉ separator)
    (hx : ∀ x ∈ xs, c ∉ text x) : c ∉ separator.intercalate (xs.map text) := by
  cases xs with
  | nil => simp
  | cons x xs =>
    rw [intercalate_map_cons]
    intro hc
    rcases List.mem_append.mp hc with hc | hc
    · exact hx x List.mem_cons_self hc
    · obtain ⟨y, hy, hc⟩ := List.mem_flatMap.mp hc
      rcases List.mem_append.mp hc with hc | hc
      · exact hs hc
      · exact hx y (List.mem_cons_of_mem _ hy) hc

theorem stops_flatMap (gap : List Char) (xs : List α) :
    Stops (· = stop) (xs.flatMap fun y => stop :: gap ++ text y) := by
  cases xs with
  | nil => exact stops_nil _
  | cons x xs => exact stops_cons.mpr rfl

theorem Delimited.flatMap_inj (h : Delimited good text stop) {gap : List Char} {xs ys : List α}
    (hx : ∀ x ∈ xs, good x) (hy : ∀ y ∈ ys, good y)
    (heq : (xs.flatMap fun x => stop :: gap ++ text x) =
      ys.flatMap fun y => stop :: gap ++ text y) : xs = ys := by
  induction xs generalizing ys with
  | nil =>
    cases ys with
    | nil => rfl
    | cons y ys => simp at heq
  | cons x xs ih =>
    cases ys with
    | nil => simp at heq
    | cons y ys =>
      simp only [List.flatMap_cons, List.cons_append, List.append_assoc, List.cons.injEq, true_and,
        List.append_cancel_left_eq] at heq
      obtain ⟨rfl, hrest⟩ := h x y _ _ (hx x List.mem_cons_self) (hy y List.mem_cons_self)
        (stops_flatMap gap xs) (stops_flatMap gap ys) heq
      rw [ih (fun a ha => hx a (List.mem_cons_of_mem _ ha))
        (fun a ha => hy a (List.mem_cons_of_mem _ ha)) hrest]

/-- A list that is not empty is told by its text when its elements are. -/
theorem Delimited.intercalate_inj (h : Delimited good text stop) {gap : List Char} {xs ys : List α}
    (hx : ∀ x ∈ xs, good x) (hy : ∀ y ∈ ys, good y) (hxs : xs ≠ []) (hys : ys ≠ [])
    (heq : (stop :: gap).intercalate (xs.map text) = (stop :: gap).intercalate (ys.map text)) :
    xs = ys := by
  obtain ⟨x, xs, rfl⟩ := List.exists_cons_of_ne_nil hxs
  obtain ⟨y, ys, rfl⟩ := List.exists_cons_of_ne_nil hys
  rw [intercalate_map_cons, intercalate_map_cons] at heq
  obtain ⟨rfl, hrest⟩ := h x y _ _ (hx x List.mem_cons_self) (hy y List.mem_cons_self)
    (stops_flatMap gap xs) (stops_flatMap gap ys) heq
  rw [h.flatMap_inj (fun a ha => hx a (List.mem_cons_of_mem _ ha))
    (fun a ha => hy a (List.mem_cons_of_mem _ ha)) hrest]

end SeedTables.Text
