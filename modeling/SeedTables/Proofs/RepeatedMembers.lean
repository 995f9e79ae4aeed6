import Mathlib.Data.List.Induction
import SeedTables.Json.Written
import SeedTables.Proofs.ConsistentSchema
import SeedTables.Proofs.DocumentParts

namespace SeedTables

open Json (Value Members Written)

namespace Member

variable {α β : Type}

/-- The value of the last member of a name. -/
def last? (name : String) (ms : List (String × α)) : Option α :=
  (ms.reverse.find? fun m => m.1 = name).map Prod.snd

/-- The keys of a list of members, each at the place where it first stands. -/
def keys (ms : List (String × α)) : List String := (ms.map Prod.fst).eraseDups

theorem last?_concat (name : String) (ms : List (String × α)) (m : String × α) :
    last? name (ms ++ [m]) = if m.1 = name then some m.2 else last? name ms := by
  rw [last?, List.reverse_append, List.reverse_singleton, List.singleton_append, List.find?_cons]
  by_cases h : m.1 = name
  · simp [h]
  · simp [h, last?]

theorem last?_map (f : α → β) (name : String) (ms : List (String × α)) :
    last? name (ms.map fun m => (m.1, f m.2)) = (last? name ms).map f := by
  induction ms using List.reverseRecOn with
  | nil => rfl
  | append_singleton ms m ih =>
    rw [List.map_append, List.map_singleton, last?_concat, last?_concat, ih]
    by_cases h : m.1 = name
    · simp [h]
    · simp [h]

theorem keys_map (f : α → β) (ms : List (String × α)) :
    keys (ms.map fun m => (m.1, f m.2)) = keys ms := by
  rw [keys, keys, List.map_map]
  rfl

theorem keys_concat (ms : List (String × α)) (m : String × α) :
    keys (ms ++ [m]) = if m.1 ∈ keys ms then keys ms else keys ms ++ [m.1] := by
  simp only [keys, List.map_append, List.map_singleton, List.eraseDups_append, List.mem_eraseDups]
  by_cases h : m.1 ∈ ms.map Prod.fst
  · simp [h, List.removeAll]
  · simp [h, List.removeAll, List.eraseDups_cons]

theorem nodup_keys (ms : List (String × α)) : (keys ms).Nodup := by
  induction ms using List.reverseRecOn with
  | nil => exact List.nodup_nil
  | append_singleton ms m ih =>
    rw [keys_concat]
    by_cases h : m.1 ∈ keys ms
    · rwa [if_pos h]
    · rw [if_neg h, List.nodup_append]
      refine ⟨ih, by simp, ?_⟩
      intro key hkey other hother he
      rw [List.mem_singleton.mp hother] at he
      exact h (he ▸ hkey)

theorem keys_ne_nil {ms : List (String × α)} (h : ms ≠ []) : keys ms ≠ [] := by
  obtain ⟨m, rest, rfl⟩ := List.exists_cons_of_ne_nil h
  simp [keys, List.eraseDups_cons]

theorem last?_isSome {name : String} {ms : List (String × α)} :
    (last? name ms).isSome = true ↔ name ∈ keys ms := by
  simp [last?, keys, List.mem_eraseDups]

/-- Where no key is repeated, every member is found by its key. -/
theorem first?_of_mem {m : String × Value} {ms : Members} (distinct : (ms.map Prod.fst).Nodup)
    (h : m ∈ ms) : first? m.1 ms = some m.2 := by
  rw [first?, find?_of_nodup_map distinct h]
  rfl

end Member

namespace Json.Members

open Member (last? keys first?)

variable {key : String} {value : Value} {ms : Members}

theorem put_of_not_mem (h : key ∉ ms.map Prod.fst) : put key value ms = ms ++ [(key, value)] := by
  induction ms with
  | nil => rfl
  | cons m ms ih =>
    rw [List.map_cons, List.mem_cons, not_or] at h
    rw [put, if_neg (Ne.symm h.1), ih h.2, List.cons_append]

theorem keys_put_of_mem (h : key ∈ ms.map Prod.fst) :
    (put key value ms).map Prod.fst = ms.map Prod.fst := by
  induction ms with
  | nil => cases h
  | cons m ms ih =>
    rw [put]
    by_cases hm : m.1 = key
    · rw [if_pos hm, List.map_cons, List.map_cons, hm]
    · rw [List.map_cons, List.mem_cons] at h
      have hrest := h.resolve_left (Ne.symm hm)
      rw [if_neg hm, List.map_cons, List.map_cons, ih hrest]

theorem first?_put (name : String) :
    first? name (put key value ms) = if key = name then some value else first? name ms := by
  unfold first?
  induction ms with
  | nil =>
    by_cases h : key = name
    · simp [put, h]
    · simp [put, h]
  | cons m ms ih =>
    rw [put]
    by_cases hm : m.1 = key
    · rw [if_pos hm]
      by_cases h : key = name
      · simp [h]
      · simp [hm, h]
    · rw [if_neg hm]
      by_cases hn : m.1 = name
      · have hk : key ≠ name := fun h => hm (hn.trans h.symm)
        simp [hn, hk]
      · simp [hn, ih]

theorem ofList_concat (ms : List (String × Value)) (m : String × Value) :
    ofList (ms ++ [m]) = put m.1 m.2 (ofList ms) := by
  rw [ofList, List.foldl_append, List.foldl_cons, List.foldl_nil, ofList]

theorem map_fst_ofList (ms : List (String × Value)) : (ofList ms).map Prod.fst = keys ms := by
  induction ms using List.reverseRecOn with
  | nil => rfl
  | append_singleton ms m ih =>
    rw [ofList_concat, Member.keys_concat]
    by_cases h : m.1 ∈ keys ms
    · rw [if_pos h, keys_put_of_mem (ih ▸ h), ih]
    · rw [if_neg h, put_of_not_mem (ih ▸ h), List.map_append, ih, List.map_singleton]

theorem first?_ofList (name : String) (ms : List (String × Value)) :
    first? name (ofList ms) = last? name ms := by
  induction ms using List.reverseRecOn with
  | nil => rfl
  | append_singleton ms m ih => rw [ofList_concat, first?_put, Member.last?_concat, ih]

theorem ofList_of_nodup {ms : List (String × Value)} (h : (ms.map Prod.fst).Nodup) :
    ofList ms = ms := by
  induction ms using List.reverseRecOn with
  | nil => rfl
  | append_singleton ms m ih =>
    rw [List.map_append, List.map_singleton, List.nodup_append] at h
    obtain ⟨hnodup, _, hnew⟩ := h
    have hm : m.1 ∉ ms.map Prod.fst := fun hm => hnew _ hm _ (List.mem_singleton_self _) rfl
    rw [ofList_concat, ih hnodup, put_of_not_mem hm]

end Json.Members

namespace Json.Written

theorem values_eq_map (ws : List Written) : values ws = ws.map value := by
  induction ws with
  | nil => rfl
  | cons w ws ih => rw [values, ih, List.map_cons]

theorem memberValues_eq_map (ms : List (String × Written)) :
    memberValues ms = ms.map fun m => (m.1, m.2.value) := by
  induction ms with
  | nil => rfl
  | cons m ms ih =>
    obtain ⟨key, w⟩ := m
    rw [memberValues, ih, List.map_cons]

/-- The part of a record as written: of the members of a name the last one counts. -/
def part? (name : String) (place : Nat) : Written → Option Written
  | .object ms => Member.last? name ms
  | .array ws => ws[place]?
  | _ => none

theorem part?_value (name : String) (place : Nat) (w : Written) :
    w.value.part? name place = (w.part? name place).map value := by
  cases w with
  | object ms =>
    change Member.first? name (Members.ofList (memberValues ms)) = (Member.last? name ms).map value
    rw [Members.first?_ofList, memberValues_eq_map, Member.last?_map]
  | array ws =>
    change (values ws)[place]? = ws[place]?.map value
    rw [values_eq_map, List.getElem?_map]
  | _ => rfl

end Json.Written
end SeedTables
