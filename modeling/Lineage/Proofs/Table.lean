import Mathlib.Data.List.Nodup
import Lineage.Table

/-!
# What a table holds after a change

Every operation on a `Table` is described by what `Table.get?` answers afterwards; two tables that
answer alike are equal (`Table.ext_get?`), since the listing order is determined by the keys.

* `get?_insert`, `get?_filter`, `get?_erase`, `get?_modify`: one change.
* `get?_ofList`: a table written from a list without repeated keys.
* `KeySet.mem_keys_ofList`: the members of a set written from a list.
-/

open Std

universe u v

namespace Lineage.Table

variable {κ : Type u} {α : Type v} [Ord κ]

@[simp] theorem get?_empty (k : κ) : (∅ : Table κ α).get? k = none := rfl

theorem contains_eq (t : Table κ α) (k : κ) : t.contains k = (t.get? k).isSome := by
  rw [get?, Option.isSome_map, contains, Bool.eq_iff_iff, List.any_eq_true, List.find?_isSome]

theorem contains_iff {t : Table κ α} {k : κ} : t.contains k = true ↔ ∃ a, t.get? k = some a := by
  rw [contains_eq, Option.isSome_iff_exists]

theorem not_contains_iff {t : Table κ α} {k : κ} : t.contains k = false ↔ t.get? k = none := by
  simp [contains_eq]

variable [LawfulEqOrd κ]

/-! ## Entries -/

theorem get?_eq_some_of_mem [TransOrd κ] {t : Table κ α} {k : κ} {a : α}
    (h : (k, a) ∈ t.entries) : t.get? k = some a := by
  obtain ⟨l, hl⟩ := t
  simp only [get?] at h ⊢
  induction l with
  | nil => simp at h
  | cons e rest ih =>
    rcases List.mem_cons.1 h with rfl | h
    · simp
    · have hlt : compare e.1 k = .lt := List.rel_of_pairwise_cons hl h
      rw [List.find?_cons_of_neg (by simp [hlt])]
      exact ih hl.of_cons h

theorem mem_entries_of_get? {t : Table κ α} {k : κ} {a : α}
    (h : t.get? k = some a) : (k, a) ∈ t.entries := by
  obtain ⟨e, he, rfl⟩ := Option.map_eq_some_iff.1 h
  have hk : e.1 = k := by simpa using List.find?_some he
  exact hk ▸ List.mem_of_find?_eq_some he

theorem nodup_keys (t : Table κ α) : t.keys.Nodup := by
  rw [keys, List.Nodup, List.pairwise_map]
  exact t.ascending.imp fun h e => by simp [e] at h

variable [TransOrd κ]

theorem mem_entries {t : Table κ α} {k : κ} {a : α} : (k, a) ∈ t.entries ↔ t.get? k = some a :=
  ⟨get?_eq_some_of_mem, mem_entries_of_get?⟩

/-- Two tables with the same answers have the same listing. -/
theorem ext_get? {s t : Table κ α} (h : ∀ k, s.get? k = t.get? k) : s = t := by
  refine ext (List.Perm.eq_of_pairwise (fun e f _ _ hef hfe => ?_) s.ascending t.ascending ?_)
  · exact absurd hfe (by simp [OrientedCmp.gt_of_lt hef])
  · have hs : s.entries.Nodup := List.Nodup.of_map Prod.fst s.nodup_keys
    have ht : t.entries.Nodup := List.Nodup.of_map Prod.fst t.nodup_keys
    refine (List.perm_ext_iff_of_nodup hs ht).2 fun ⟨k, a⟩ => ?_
    rw [mem_entries, mem_entries, h]

theorem mem_keys {t : Table κ α} {k : κ} : k ∈ t.keys ↔ ∃ a, t.get? k = some a := by
  simp [keys, ← mem_entries]

theorem mem_values {t : Table κ α} {a : α} : a ∈ t.values ↔ ∃ k, t.get? k = some a := by
  simp [values, ← mem_entries]

/-! ## Changes -/

theorem mem_place_iff {k : κ} {a : α} {e : κ × α} {l : List (κ × α)}
    (hl : l.Pairwise fun e f => compare e.1 f.1 = .lt) :
    e ∈ place k a l ↔ e = (k, a) ∨ e ∈ l ∧ e.1 ≠ k := by
  fun_induction place k a l with
  | case1 => simp
  | case2 j b rest hkj =>
    have hfar : ∀ f ∈ (j, b) :: rest, f.1 ≠ k := by
      intro f hf e
      rcases List.mem_cons.1 hf with rfl | hf
      · simp [← e] at hkj
      · have := TransCmp.lt_trans hkj (List.rel_of_pairwise_cons hl hf)
        simp [e] at this
    rw [List.mem_cons]
    exact or_congr_right ⟨fun h => ⟨h, hfar _ h⟩, fun h => h.1⟩
  | case3 j b rest hkj =>
    obtain rfl : k = j := by simpa using hkj
    have hfar : ∀ f ∈ rest, f.1 ≠ k := fun f hf e => by
      have := List.rel_of_pairwise_cons hl hf
      simp [e] at this
    rw [List.mem_cons, List.mem_cons]
    refine or_congr_right ⟨fun h => ⟨.inr h, hfar _ h⟩, ?_⟩
    rintro ⟨rfl | h, hne⟩
    · exact absurd rfl hne
    · exact h
  | case4 j b rest hkj ih =>
    have hne : j ≠ k := fun e => by simp [e] at hkj
    rw [List.mem_cons, List.mem_cons, ih hl.of_cons]
    constructor
    · rintro (rfl | rfl | h)
      · exact .inr ⟨.inl rfl, hne⟩
      · exact .inl rfl
      · exact .inr ⟨.inr h.1, h.2⟩
    · rintro (rfl | ⟨rfl | h, he⟩)
      · exact .inr (.inl rfl)
      · exact .inl rfl
      · exact .inr (.inr ⟨h, he⟩)

theorem get?_insert [DecidableEq κ] (t : Table κ α) (k : κ) (a : α) (j : κ) :
    (t.insert k a).get? j = if j = k then some a else t.get? j := by
  refine Option.ext fun b => ?_
  rw [← mem_entries, insert, mem_place_iff t.ascending]
  split
  case isTrue h => subst h; simp [eq_comm]
  case isFalse h => simp [h, mem_entries]

@[simp] theorem get?_insert_self (t : Table κ α) (k : κ) (a : α) :
    (t.insert k a).get? k = some a := by
  rw [← mem_entries, insert, mem_place_iff t.ascending]
  exact .inl rfl

theorem get?_insert_of_ne [DecidableEq κ] {k j : κ} (h : j ≠ k) (t : Table κ α) (a : α) :
    (t.insert k a).get? j = t.get? j := by
  rw [get?_insert, if_neg h]

theorem get?_filter (t : Table κ α) (p : κ → α → Bool) (k : κ) :
    (t.filter p).get? k = (t.get? k).filter (p k) := by
  refine Option.ext fun a => ?_
  rw [← mem_entries, filter, List.mem_filter, mem_entries, Option.filter_eq_some_iff]

theorem get?_erase [DecidableEq κ] (t : Table κ α) (k j : κ) :
    (t.erase k).get? j = if j = k then none else t.get? j := by
  rw [erase, get?_filter]
  split
  case isTrue h => subst h; cases t.get? j <;> simp [Option.filter]
  case isFalse h => cases t.get? j <;> simp [Option.filter, h]

theorem get?_erase_self [DecidableEq κ] (t : Table κ α) (k : κ) : (t.erase k).get? k = none := by
  rw [get?_erase, if_pos rfl]

theorem get?_erase_of_ne [DecidableEq κ] {k j : κ} (h : j ≠ k) (t : Table κ α) :
    (t.erase k).get? j = t.get? j := by
  rw [get?_erase, if_neg h]

theorem get?_of_erase [DecidableEq κ] {t : Table κ α} {k j : κ} {a : α}
    (h : (t.erase k).get? j = some a) : t.get? j = some a := by
  rw [get?_erase] at h
  split at h
  case isTrue => cases h
  case isFalse => exact h

theorem erase_eq_self [DecidableEq κ] {t : Table κ α} {k : κ} (h : t.get? k = none) :
    t.erase k = t := by
  refine ext_get? fun j => ?_
  rw [get?_erase]
  split
  case isTrue e => rw [e, h]
  case isFalse => rfl

theorem mem_values_of_erase [DecidableEq κ] {t : Table κ α} {k : κ} {a : α}
    (h : a ∈ (t.erase k).values) : a ∈ t.values :=
  mem_values.2 ((mem_values.1 h).imp fun _ => get?_of_erase)

theorem mem_values_of_insert [DecidableEq κ] {t : Table κ α} {k : κ} {a b : α}
    (h : a ∈ (t.insert k b).values) : a = b ∨ a ∈ t.values := by
  obtain ⟨j, hj⟩ := mem_values.1 h
  rw [get?_insert] at hj
  split at hj
  case isTrue => exact .inl (Option.some.inj hj).symm
  case isFalse => exact .inr (mem_values.2 ⟨j, hj⟩)

theorem get?_modify [DecidableEq κ] (t : Table κ α) (k : κ) (f : α → α) (j : κ) :
    (t.modify k f).get? j = if j = k then (t.get? k).map f else t.get? j := by
  unfold modify
  split
  case h_1 a ha => rw [get?_insert, ha]; rfl
  case h_2 ha =>
    split
    case isTrue h => rw [h, ha]; rfl
    case isFalse => rfl

/-! ## Lists of entries -/

theorem get?_foldl_insert [DecidableEq κ] {l : List (κ × α)} (hl : (l.map (·.1)).Nodup)
    (t : Table κ α) (k : κ) :
    (l.foldl (fun t e => t.insert e.1 e.2) t).get? k =
      ((l.find? fun e => e.1 = k).map (·.2)).or (t.get? k) := by
  induction l generalizing t with
  | nil => simp
  | cons e rest ih =>
    rw [List.map_cons, List.nodup_cons] at hl
    rw [List.foldl_cons, ih hl.2, get?_insert]
    by_cases he : e.1 = k
    · have hn : rest.find? (fun e => decide (e.1 = k)) = none := by
        rw [List.find?_eq_none]
        intro f hf
        have : f.1 ≠ k := fun h => hl.1 (he ▸ h ▸ List.mem_map_of_mem hf)
        simpa using this
      rw [List.find?_cons_of_pos (by simpa using he), hn]
      simp [he]
    · rw [List.find?_cons_of_neg (by simpa using he)]
      simp [Ne.symm he]

/-- A list of entries without repeated keys, written to a table, can be read back. -/
theorem get?_ofList [DecidableEq κ] {l : List (κ × α)} (hl : (l.map (·.1)).Nodup) {k : κ} {a : α} :
    (ofList l).get? k = some a ↔ (k, a) ∈ l := by
  rw [ofList, get?_foldl_insert hl, get?_empty, Option.or_none, Option.map_eq_some_iff]
  constructor
  · rintro ⟨e, he, rfl⟩
    have hk : e.1 = k := by simpa using List.find?_some he
    exact hk ▸ List.mem_of_find?_eq_some he
  · intro h
    obtain ⟨e, he⟩ := Option.isSome_iff_exists.1
      (List.find?_isSome.2 ⟨(k, a), h, by simp⟩ : (l.find? fun e => decide (e.1 = k)).isSome)
    have hk : e.1 = k := by simpa using List.find?_some he
    have heq : e = (k, a) :=
      List.inj_on_of_nodup_map hl (List.mem_of_find?_eq_some he) h hk
    exact ⟨e, he, by rw [heq]⟩

/-- A table is what its listing, written entry by entry, makes up. -/
theorem ofList_entries [DecidableEq κ] (t : Table κ α) : ofList t.entries = t :=
  ext_get? fun k => Option.ext fun a => by rw [get?_ofList t.nodup_keys, mem_entries]

end Lineage.Table

namespace Lineage.KeySet

open Table

variable {κ : Type u} [Ord κ] [TransOrd κ] [LawfulEqOrd κ]

theorem mem_keys_foldl {l : List κ} {s : KeySet κ} {k : κ} :
    k ∈ (l.foldl (fun s k => s.insert k ()) s).keys ↔ k ∈ s.keys ∨ k ∈ l := by
  classical
  induction l generalizing s with
  | nil => simp
  | cons a rest ih =>
    rw [List.foldl_cons, ih, mem_keys, mem_keys, get?_insert]
    by_cases h : k = a <;> simp [h]

theorem mem_keys_ofList {l : List κ} {k : κ} : k ∈ (KeySet.ofList l).keys ↔ k ∈ l := by
  rw [KeySet.ofList, mem_keys_foldl]
  simp [mem_keys]

theorem contains_iff_mem_keys {s : KeySet κ} {k : κ} : s.contains k = true ↔ k ∈ s.keys := by
  rw [contains_iff, mem_keys]

theorem contains_ofList {l : List κ} {k : κ} : (KeySet.ofList l).contains k = true ↔ k ∈ l := by
  rw [contains_iff_mem_keys, mem_keys_ofList]

end Lineage.KeySet
