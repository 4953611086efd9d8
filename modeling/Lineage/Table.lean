/-!
# Finite maps in ascending key order

`Table κ α` is a finite map kept as a list of entries whose keys strictly ascend. The listing
order is part of the value: two tables with the same entries are equal, and `Table.keys` answers
in ascending order without sorting.

* `get?`, `contains`: look up.
* `insert`: write one key, replacing what it held.
* `erase`, `filter`: drop entries.
* `ofList`: write the entries of a list one after the other, so the last one of a key stays.
-/

open Std

universe u v

namespace Lineage

/-- A finite map from `κ` to `α` whose entries are listed in strictly ascending key order. -/
structure Table (κ : Type u) (α : Type v) [Ord κ] where
  entries : List (κ × α)
  ascending : entries.Pairwise fun e f => compare e.1 f.1 = .lt

namespace Table

variable {κ : Type u} {α : Type v} [Ord κ]

@[ext] theorem ext {s t : Table κ α} (h : s.entries = t.entries) : s = t := by
  cases s; cases t; cases h; rfl

instance [DecidableEq κ] [DecidableEq α] : DecidableEq (Table κ α) := fun s t =>
  decidable_of_iff (s.entries = t.entries) ⟨ext, fun h => h ▸ rfl⟩

/-- The table without entries. -/
def empty : Table κ α := ⟨[], .nil⟩

instance : EmptyCollection (Table κ α) := ⟨empty⟩
instance : Inhabited (Table κ α) := ⟨∅⟩

/-- The value at `k`, if there is one. -/
def get? (t : Table κ α) (k : κ) : Option α :=
  (t.entries.find? fun e => compare e.1 k == .eq).map (·.2)

/-- Whether `k` has a value. -/
def contains (t : Table κ α) (k : κ) : Bool := t.entries.any fun e => compare e.1 k == .eq

/-- The keys, ascending. -/
def keys (t : Table κ α) : List κ := t.entries.map (·.1)

/-- The values, by ascending key. -/
def values (t : Table κ α) : List α := t.entries.map (·.2)

/-- The number of entries. -/
def size (t : Table κ α) : Nat := t.entries.length

/-- Whether there is no entry. -/
def isEmpty (t : Table κ α) : Bool := t.entries.isEmpty

/-- Keep the entries that satisfy `p`. -/
def filter (t : Table κ α) (p : κ → α → Bool) : Table κ α :=
  ⟨t.entries.filter fun e => p e.1 e.2, t.ascending.filter _⟩

/-- Drop the value at `k`. -/
def erase (t : Table κ α) (k : κ) : Table κ α := t.filter fun j _ => !(compare j k == .eq)

/-- Place an entry before the first larger key of an ascending list, replacing an equal one. -/
def place (k : κ) (a : α) : List (κ × α) → List (κ × α)
  | [] => [(k, a)]
  | (j, b) :: rest =>
    match compare k j with
    | .lt => (k, a) :: (j, b) :: rest
    | .eq => (k, a) :: rest
    | .gt => (j, b) :: place k a rest

theorem mem_place {k : κ} {a : α} {e : κ × α} {l : List (κ × α)} (h : e ∈ place k a l) :
    e = (k, a) ∨ e ∈ l := by
  fun_induction place k a l with
  | case1 => simpa using h
  | case2 => simpa using h
  | case3 j b rest =>
    rcases List.mem_cons.1 h with h | h
    · exact .inl h
    · exact .inr (List.mem_cons_of_mem _ h)
  | case4 j b rest _ ih =>
    rcases List.mem_cons.1 h with h | h
    · exact .inr (h ▸ List.mem_cons_self)
    · exact (ih h).imp id (List.mem_cons_of_mem _)

theorem ascending_place [TransOrd κ] {k : κ} {a : α} {l : List (κ × α)}
    (h : l.Pairwise fun e f => compare e.1 f.1 = .lt) :
    (place k a l).Pairwise fun e f => compare e.1 f.1 = .lt := by
  fun_induction place k a l with
  | case1 => simp
  | case2 j b rest hkj =>
    refine List.pairwise_cons.2 ⟨fun e he => ?_, h⟩
    rcases List.mem_cons.1 he with rfl | he
    · exact hkj
    · exact TransCmp.lt_trans hkj (List.rel_of_pairwise_cons h he)
  | case3 j b rest hkj =>
    refine List.pairwise_cons.2 ⟨fun e he => ?_, h.of_cons⟩
    exact TransCmp.lt_of_eq_of_lt hkj (List.rel_of_pairwise_cons h he)
  | case4 j b rest hkj ih =>
    refine List.pairwise_cons.2 ⟨fun e he => ?_, ih h.of_cons⟩
    rcases mem_place he with rfl | he
    · exact OrientedCmp.lt_of_gt hkj
    · exact List.rel_of_pairwise_cons h he

section Writing

variable [TransOrd κ]

/-- Write `a` at `k`, replacing what `k` held. -/
def insert (t : Table κ α) (k : κ) (a : α) : Table κ α :=
  ⟨place k a t.entries, ascending_place t.ascending⟩

/-- Write the entries of a list one after the other: of several with one key the last stays. -/
def ofList (l : List (κ × α)) : Table κ α := l.foldl (fun t e => t.insert e.1 e.2) ∅

/-- Apply `f` to the value at `k`, if there is one. -/
def modify (t : Table κ α) (k : κ) (f : α → α) : Table κ α :=
  match t.get? k with
  | some a => t.insert k (f a)
  | none => t

end Writing

end Table

/-- A finite set of keys, listed in ascending order by `Table.keys`. -/
abbrev KeySet (κ : Type u) [Ord κ] := Table κ Unit

/-- The set of the members of a list. -/
def KeySet.ofList {κ : Type u} [Ord κ] [TransOrd κ] (l : List κ) : KeySet κ :=
  l.foldl (fun s k => s.insert k ()) ∅

end Lineage
