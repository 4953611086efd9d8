import Mathlib.Logic.Relation
import Mathlib.Data.Fintype.Prod

/-!
# Distances in a directed graph

A graph is a relation `E`. `Walk E n x y` says that `n` edges in a row lead from `x` to `y`, and
`IsDistance E n x y` that no fewer do. A walk exists iff `y` is reachable
(`reflTransGen_iff_walk`).

* `Walk.through`: in a graph with one more edge `a → d`, where `d` does not reach `a`, a walk is an
  old one or goes through the new edge once.
* `Acyclic.square_le_card`, `IsDistance.square_le_card`: a long walk needs many connected pairs.
* `Acyclic.lt_card`: a walk in an acyclic graph needs more nodes than it has edges.
* `isDistance_loopless_iff`: loops make no difference to distances.
-/

open Relation

namespace Lineage

variable {α : Type} {E F : α → α → Prop} {x y z a d : α} {n m k j : Nat}

/-- `n` edges in a row lead from one node to the other. -/
inductive Walk (E : α → α → Prop) : Nat → α → α → Prop
  | nil (x : α) : Walk E 0 x x
  | snoc {n : Nat} {x y z : α} : Walk E n x y → E y z → Walk E (n + 1) x z

namespace Walk

theorem zero_iff : Walk E 0 x y ↔ x = y :=
  ⟨fun h => by cases h; rfl, fun h => h ▸ .nil x⟩

theorem succ_iff : Walk E (n + 1) x z ↔ ∃ y, Walk E n x y ∧ E y z :=
  ⟨fun h => by cases h with | snoc h e => exact ⟨_, h, e⟩, fun ⟨_, h, e⟩ => h.snoc e⟩

theorem one_iff : Walk E 1 x y ↔ E x y := by simp [succ_iff, zero_iff]

theorem append (h : Walk E n x y) (h' : Walk E m y z) : Walk E (n + m) x z := by
  induction h' with
  | nil => exact h
  | snoc _ e ih => exact (ih h).snoc e

theorem mono (hEF : ∀ u v, E u v → F u v) (h : Walk E n x y) : Walk F n x y := by
  induction h with
  | nil => exact .nil _
  | snoc _ e ih => exact ih.snoc (hEF _ _ e)

theorem reflTransGen (h : Walk E n x y) : ReflTransGen E x y := by
  induction h with
  | nil => rfl
  | snoc _ e ih => exact ih.tail e

theorem transGen (h : Walk E (n + 1) x y) : TransGen E x y := by
  obtain ⟨z, h, e⟩ := succ_iff.1 h
  exact .tail' h.reflTransGen e

end Walk

theorem reflTransGen_iff_walk : ReflTransGen E x y ↔ ∃ n, Walk E n x y := by
  refine ⟨fun h => ?_, fun ⟨_, h⟩ => h.reflTransGen⟩
  induction h with
  | refl => exact ⟨0, .nil x⟩
  | tail _ e ih =>
    obtain ⟨n, h⟩ := ih
    exact ⟨n + 1, h.snoc e⟩

theorem transGen_iff_walk : TransGen E x y ↔ ∃ n, Walk E (n + 1) x y := by
  refine ⟨fun h => ?_, fun ⟨_, h⟩ => h.transGen⟩
  obtain ⟨z, h, e⟩ := TransGen.tail'_iff.1 h
  obtain ⟨n, h⟩ := reflTransGen_iff_walk.1 h
  exact ⟨n, h.snoc e⟩

/-! ## Distances -/

/-- `n` edges lead from one node to the other, and no fewer do. -/
def IsDistance (E : α → α → Prop) (n : Nat) (x y : α) : Prop :=
  Walk E n x y ∧ ∀ m, Walk E m x y → n ≤ m

namespace IsDistance

theorem self (x : α) : IsDistance E 0 x x := ⟨.nil x, fun _ _ => Nat.zero_le _⟩

theorem zero_iff : IsDistance E 0 x y ↔ x = y :=
  ⟨fun h => Walk.zero_iff.1 h.1, fun h => h ▸ self x⟩

/-- At distance one are the ends of edges that are no loops. -/
theorem one_iff : IsDistance E 1 x y ↔ E x y ∧ x ≠ y := by
  refine ⟨fun h => ⟨Walk.one_iff.1 h.1, ?_⟩, fun h => ⟨Walk.one_iff.2 h.1, fun m hm => ?_⟩⟩
  · rintro rfl
    exact absurd (h.2 0 (.nil x)) (by decide)
  · by_contra hlt
    obtain rfl : m = 0 := by omega
    exact h.2 (Walk.zero_iff.1 hm)

theorem reflTransGen (h : IsDistance E n x y) : ReflTransGen E x y := h.1.reflTransGen

end IsDistance

/-- Of the walks between two nodes one is shortest. -/
theorem Walk.exists_isDistance (h : Walk E n x y) : ∃ m ≤ n, IsDistance E m x y := by
  classical
  have hex : ∃ m, Walk E m x y := ⟨n, h⟩
  exact ⟨Nat.find hex, Nat.find_min' hex h, Nat.find_spec hex, fun m hm => Nat.find_min' hex hm⟩

theorem reflTransGen_iff_isDistance : ReflTransGen E x y ↔ ∃ n, IsDistance E n x y := by
  refine ⟨fun h => ?_, fun ⟨_, h⟩ => h.reflTransGen⟩
  obtain ⟨n, h⟩ := reflTransGen_iff_walk.1 h
  obtain ⟨m, -, h⟩ := h.exists_isDistance
  exact ⟨m, h⟩

/-! ## One more edge -/

/-- The graph with the edge from `a` to `d` added. -/
def Joined (E : α → α → Prop) (a d : α) (x y : α) : Prop := E x y ∨ x = a ∧ y = d

theorem Walk.joined (h : Walk E n x y) : Walk (Joined E a d) n x y := h.mono fun _ _ => .inl

/-- Without a way back from `d` to `a` a walk takes the new edge at most once. -/
theorem Walk.through (hda : ¬ ReflTransGen E d a) (h : Walk (Joined E a d) n x y) :
    Walk E n x y ∨ ∃ k j, Walk E k x a ∧ Walk E j d y ∧ n = k + 1 + j := by
  induction h with
  | nil x => exact .inl (.nil x)
  | @snoc n x y z _ e ih =>
    rcases ih with ih | ⟨k, j, hk, hj, rfl⟩
    · rcases e with e | ⟨rfl, rfl⟩
      · exact .inl (ih.snoc e)
      · exact .inr ⟨n, 0, ih, .nil _, rfl⟩
    · rcases e with e | ⟨rfl, rfl⟩
      · exact .inr ⟨k, j + 1, hk, hj.snoc e, rfl⟩
      · exact absurd hj.reflTransGen hda

theorem Walk.join (h : Walk E k x a) (h' : Walk E j d y) : Walk (Joined E a d) (k + 1 + j) x y :=
  (h.joined.snoc (.inr ⟨rfl, rfl⟩)).append h'.joined

/-- A new edge connects what reaches its start with what its end reaches. -/
theorem reflTransGen_joined_iff (hda : ¬ ReflTransGen E d a) :
    ReflTransGen (Joined E a d) x y ↔
      ReflTransGen E x y ∨ ReflTransGen E x a ∧ ReflTransGen E d y := by
  simp only [reflTransGen_iff_walk]
  constructor
  · rintro ⟨n, hw⟩
    rcases hw.through hda with hw | ⟨k, j, hk, hj, -⟩
    · exact .inl ⟨n, hw⟩
    · exact .inr ⟨⟨k, hk⟩, ⟨j, hj⟩⟩
  · rintro (⟨n, hw⟩ | ⟨⟨k, hk⟩, ⟨j, hj⟩⟩)
    · exact ⟨n, hw.joined⟩
    · exact ⟨_, hk.join hj⟩

/-- The distance after an edge was added is the old one, or leads over the edge. -/
theorem isDistance_joined_iff (hda : ¬ ReflTransGen E d a) :
    IsDistance (Joined E a d) n x y ↔
      (IsDistance E n x y ∨
        ∃ k j, IsDistance E k x a ∧ IsDistance E j d y ∧ n = k + 1 + j) ∧
      (∀ m, IsDistance E m x y → n ≤ m) ∧
      ∀ k j, IsDistance E k x a → IsDistance E j d y → n ≤ k + 1 + j := by
  constructor
  · intro h
    refine ⟨?_, fun m hm => h.2 m hm.1.joined, fun k j hk hj => h.2 _ (hk.1.join hj.1)⟩
    rcases h.1.through hda with hw | ⟨k, j, hk, hj, rfl⟩
    · exact .inl ⟨hw, fun m hm => h.2 m hm.joined⟩
    · obtain ⟨k', hk', hk⟩ := hk.exists_isDistance
      obtain ⟨j', hj', hj⟩ := hj.exists_isDistance
      have := h.2 _ (hk.1.join hj.1)
      exact .inr ⟨k', j', hk, hj, by omega⟩
  · rintro ⟨h, hold, hnew⟩
    refine ⟨?_, fun m hm => ?_⟩
    · rcases h with h | ⟨k, j, hk, hj, rfl⟩
      · exact h.1.joined
      · exact hk.1.join hj.1
    · rcases hm.through hda with hm | ⟨k, j, hk, hj, rfl⟩
      · obtain ⟨m', hle, hm'⟩ := hm.exists_isDistance
        exact (hold m' hm').trans hle
      · obtain ⟨k', hk', hk⟩ := hk.exists_isDistance
        obtain ⟨j', hj', hj⟩ := hj.exists_isDistance
        exact (hnew k' j' hk hj).trans (by omega)

/-! ## Bounds -/

/-- Whether no node is below itself. -/
def Acyclic (E : α → α → Prop) : Prop := ∀ x, ¬ TransGen E x x

theorem Acyclic.mono (hF : Acyclic F) (h : ∀ u v, E u v → F u v) : Acyclic E :=
  fun x hx => hF x (TransGen.mono h x x hx)

theorem Acyclic.not_edge (h : Acyclic E) : ¬ E x x := fun e => h x (.single e)

theorem Acyclic.joined (h : Acyclic E) (hda : ¬ ReflTransGen E d a) :
    Acyclic (Joined E a d) := by
  intro x hx
  obtain ⟨n, hx⟩ := transGen_iff_walk.1 hx
  rcases hx.through hda with hx | ⟨k, j, hk, hj, -⟩
  · exact h x hx.transGen
  · exact hda (hj.reflTransGen.trans hk.reflTransGen)

/-- A graph whose edges lead from smaller to larger numbers has no cycle. -/
theorem Acyclic.of_lt {f : α → Int} (h : ∀ x y, E x y → f x < f y) : Acyclic E := by
  have hlt : ∀ x y, TransGen E x y → f x < f y := by
    intro x y hxy
    induction hxy with
    | single e => exact h _ _ e
    | tail _ e ih => exact ih.trans (h _ _ e)
  exact fun x hx => lt_irrefl _ (hlt x x hx)

/-- The nodes that a walk passes, in their order. -/
theorem Walk.exists_nodes (h : Walk E n x y) :
    ∃ v : Nat → α, v 0 = x ∧ v n = y ∧ ∀ i j, i ≤ j → j ≤ n → Walk E (j - i) (v i) (v j) := by
  induction h with
  | nil x => exact ⟨fun _ => x, rfl, rfl, fun i j _ hj => by
      obtain rfl := Nat.le_zero.1 hj
      simpa using .nil x⟩
  | @snoc n x y z _ e ih =>
    obtain ⟨v, hx, hy, hv⟩ := ih
    refine ⟨fun i => if i ≤ n then v i else z, by simpa using hx, by simp, fun i j hij hj => ?_⟩
    rcases Nat.lt_or_ge n j with hlt | hle
    · obtain rfl : j = n + 1 := by omega
      simp only [if_neg (Nat.not_le.2 hlt)]
      split
      case isTrue hi =>
        rw [Nat.succ_sub hi]
        exact (hv i n hi (Nat.le_refl n)).snoc (hy ▸ e)
      case isFalse hi =>
        obtain rfl : i = n + 1 := by omega
        simpa using .nil z
    · simp only [if_pos hle, if_pos (hij.trans hle)]
      exact hv i j hij hle

/-- Nodes without repetition are told apart by their places. -/
theorem place_eq {v : Nat → α} {i j : Nat} (hne : ∀ i j, i < j → j ≤ n → v i ≠ v j) (hi : i ≤ n)
    (hj : j ≤ n) (e : v i = v j) : i = j := by
  rcases Nat.lt_trichotomy i j with hlt | heq | hgt
  · exact absurd e (hne i j hlt hj)
  · exact heq
  · exact absurd e.symm (hne j i hgt hi)

/-- Nodes that follow one another without repetition connect a square number of pairs: each of
their first half with each of their second half. -/
theorem square_le_card_of_nodes {v : Nat → α}
    (hv : ∀ i j, i ≤ j → j ≤ n → Walk E (j - i) (v i) (v j))
    (hne : ∀ i j, i < j → j ≤ n → v i ≠ v j) (pairs : Finset (α × α))
    (hpairs : ∀ u w, ReflTransGen E (v 0) u → ReflTransGen E u w → (u, w) ∈ pairs) :
    (n + 1) / 2 * ((n + 1) / 2) ≤ pairs.card := by
  have hle := Finset.card_le_card_of_injOn (s := Finset.univ) (t := pairs)
    (fun p : Fin ((n + 1) / 2) × Fin ((n + 1) / 2) => (v p.1, v ((n + 1) / 2 + p.2)))
    (fun p _ => hpairs _ _ (hv 0 p.1 (by omega) (by omega)).reflTransGen
      (hv p.1 ((n + 1) / 2 + p.2) (by omega) (by omega)).reflTransGen)
    (by
      rintro ⟨i, j⟩ - ⟨i', j'⟩ - e
      obtain ⟨e₁, e₂⟩ := Prod.mk.inj e
      have h₁ := place_eq hne (by omega) (by omega) e₁
      have h₂ := place_eq hne (by omega) (by omega) e₂
      exact Prod.ext (Fin.ext h₁) (Fin.ext (by simpa using h₂)))
  simpa using hle

/-- A walk in an acyclic graph passes no node twice. -/
theorem Acyclic.ne_of_nodes (hE : Acyclic E) {v : Nat → α}
    (hv : ∀ i j, i ≤ j → j ≤ n → Walk E (j - i) (v i) (v j)) {i j : Nat} (hij : i < j)
    (hj : j ≤ n) : v i ≠ v j := by
  intro e
  have hw := hv i j hij.le hj
  obtain ⟨m, hm⟩ : ∃ m, j - i = m + 1 := ⟨j - i - 1, by omega⟩
  exact hE (v i) (by rw [hm, ← e] at hw; exact hw.transGen)

/-- A walk in an acyclic graph connects a square number of pairs. -/
theorem Acyclic.square_le_card (hE : Acyclic E) (h : Walk E n x y) (pairs : Finset (α × α))
    (hpairs : ∀ u v, ReflTransGen E x u → ReflTransGen E u v → (u, v) ∈ pairs) :
    (n + 1) / 2 * ((n + 1) / 2) ≤ pairs.card := by
  obtain ⟨v, rfl, -, hv⟩ := h.exists_nodes
  exact square_le_card_of_nodes hv (fun _ _ => hE.ne_of_nodes hv) pairs hpairs

/-- A walk in an acyclic graph has fewer edges than there are nodes to pass. -/
theorem Acyclic.lt_card (hE : Acyclic E) (h : Walk E n x y) (nodes : Finset α)
    (hnodes : ∀ u, ReflTransGen E x u → u ∈ nodes) : n < nodes.card := by
  obtain ⟨v, rfl, -, hv⟩ := h.exists_nodes
  have hplace : ∀ i ∈ Finset.range (n + 1), i ≤ n :=
    fun i hi => Nat.le_of_lt_succ (Finset.mem_range.1 hi)
  have hle := Finset.card_le_card_of_injOn (s := Finset.range (n + 1)) (t := nodes) v
    (fun i hi => hnodes _ (hv 0 i (Nat.zero_le i) (hplace i hi)).reflTransGen)
    fun i hi j hj e => place_eq (fun _ _ => hE.ne_of_nodes hv) (hplace i hi) (hplace j hj) e
  rwa [Finset.card_range] at hle

/-- So does a shortest walk in any graph: it passes no node twice. -/
theorem IsDistance.square_le_card (h : IsDistance E n x y) (pairs : Finset (α × α))
    (hpairs : ∀ u v, ReflTransGen E x u → ReflTransGen E u v → (u, v) ∈ pairs) :
    (n + 1) / 2 * ((n + 1) / 2) ≤ pairs.card := by
  obtain ⟨hw, hmin⟩ := h
  obtain ⟨v, rfl, rfl, hv⟩ := hw.exists_nodes
  refine square_le_card_of_nodes hv (fun i j hij hj e => ?_) pairs hpairs
  have hfirst := hv 0 i (Nat.zero_le i) (by omega)
  have hlast := hv j n hj (Nat.le_refl n)
  have hshort := hmin _ (hfirst.append (e ▸ hlast))
  omega

/-! ## Loops -/

/-- The graph without its loops. -/
def Loopless (E : α → α → Prop) (x y : α) : Prop := E x y ∧ x ≠ y

/-- A walk may leave out its loops. -/
theorem Walk.exists_loopless (h : Walk E n x y) : ∃ m ≤ n, Walk (Loopless E) m x y := by
  induction h with
  | nil x => exact ⟨0, Nat.le_refl 0, .nil x⟩
  | @snoc n x y z _ e ih =>
    obtain ⟨m, hle, hw⟩ := ih
    by_cases hyz : y = z
    · subst hyz
      exact ⟨m, by omega, hw⟩
    · exact ⟨m + 1, by omega, hw.snoc ⟨e, hyz⟩⟩

theorem isDistance_loopless_iff : IsDistance (Loopless E) n x y ↔ IsDistance E n x y := by
  have hmono : ∀ {m}, Walk (Loopless E) m x y → Walk E m x y := fun h => h.mono fun _ _ e => e.1
  constructor
  · intro h
    refine ⟨hmono h.1, fun m hm => ?_⟩
    obtain ⟨m', hle, hm'⟩ := hm.exists_loopless
    exact (h.2 m' hm').trans hle
  · intro h
    obtain ⟨m, hle, hw⟩ := h.1.exists_loopless
    have hge := h.2 m (hmono hw)
    obtain rfl : m = n := by omega
    exact ⟨hw, fun m hm => h.2 m (hmono hm)⟩

end Lineage
