import Mathlib.Data.List.Nodup
import Mathlib.Data.List.Pairwise
import Lineage.Sql.Tables

/-!
# Hierarchies that share a database

The tables of several hierarchies may stand in one database. A name says whose table it is but for
one case: what `role` calls its closure rows, a kind `role_path` calls its active records.

* `Kind.IsPathOf`: that case. `Tables.mem_names_and_iff`: the tables that two kinds have in common.
* `Tables.columns?`: the columns a table comes to have when the tables of some kinds are created one
  after the other.
* `Tables.owned_iff`: when the kinds of a database own their tables.
-/

namespace Lineage

namespace Kind

/-- The name is the other one's with `_path` after it. -/
def IsPathOf (a b : Kind) : Prop := a.name = b.name ++ "_path"

instance (a b : Kind) : Decidable (a.IsPathOf b) := inferInstanceAs (Decidable (_ = _))

/-- The name is made of lowercase letters and underscores. -/
def IsPlain (k : Kind) : Prop := k.name ≠ "" ∧ ∀ c ∈ k.name.toList, c.isLower ∨ c = '_'

instance (k : Kind) : Decidable k.IsPlain := inferInstanceAs (Decidable (_ ∧ _))

theorem eq_of_append {a b : Kind} {ending : String} (h : a.name ++ ending = b.name ++ ending) :
    a = b := by
  cases a
  cases b
  exact congrArg mk ((String.append_left_inj ending).1 h)

theorem not_isPathOf_self (k : Kind) : ¬ k.IsPathOf k := by
  intro h
  have hlength := congrArg String.length h
  simp at hlength

end Kind

namespace Tables

variable {a b k : Kind} {name : String}

/-- The names of the three tables. -/
def names (t : Tables) : List String := [t.nodes, t.archived, t.paths]

theorem names_eq (t : Tables) : t.names = t.definitions.map Prod.fst := rfl

theorem mem_names {t : Tables} :
    name ∈ t.names ↔ name = t.nodes ∨ name = t.archived ∨ name = t.paths := by
  simp [names]

/-! ## Names -/

theorem append_s_ne_archived (text : String) (k : Kind) :
    text ++ "s" ≠ (ofKind k).archived := by
  intro h
  have hlast := congrArg (fun name => name.toList.getLast?) h
  simp [ofKind] at hlast

theorem paths_eq (k : Kind) : (ofKind k).paths = k.name ++ "_path" ++ "s" :=
  (@String.append_assoc k.name "_path" "s").symm

theorem nodes_ne_archived : (ofKind a).nodes ≠ (ofKind b).archived := append_s_ne_archived _ b

theorem paths_ne_archived : (ofKind a).paths ≠ (ofKind b).archived :=
  paths_eq a ▸ append_s_ne_archived _ b

theorem nodes_eq_paths_iff : (ofKind a).nodes = (ofKind b).paths ↔ a.IsPathOf b := by
  rw [paths_eq]
  exact String.append_left_inj "s"

theorem nodup_names (k : Kind) : (ofKind k).names.Nodup := by
  have hpaths : (ofKind k).nodes ≠ (ofKind k).paths :=
    fun h => k.not_isPathOf_self (nodes_eq_paths_iff.1 h)
  simp [names, nodes_ne_archived, hpaths, paths_ne_archived.symm]

/-- A table of two kinds: they are one, or it holds the records of the one and the closure rows of
the other. -/
theorem mem_names_and_iff (a b : Kind) (name : String) :
    name ∈ (ofKind a).names ∧ name ∈ (ofKind b).names ↔
      (a = b ∧ name ∈ (ofKind a).names) ∨ (a.IsPathOf b ∧ name = (ofKind b).paths) ∨
        (b.IsPathOf a ∧ name = (ofKind a).paths) := by
  constructor
  · rintro ⟨ha, hb⟩
    have hsame (ending : String) (h : a.name ++ ending = b.name ++ ending) :
        a = b ∧ name ∈ (ofKind a).names := ⟨Kind.eq_of_append h, ha⟩
    rcases mem_names.1 ha with hname | hname | hname <;>
      rcases mem_names.1 hb with hname' | hname' | hname' <;>
      have heq := hname.symm.trans hname'
    · exact .inl (hsame _ heq)
    · exact absurd heq nodes_ne_archived
    · exact .inr (.inl ⟨nodes_eq_paths_iff.1 heq, hname'⟩)
    · exact absurd heq.symm nodes_ne_archived
    · exact .inl (hsame _ heq)
    · exact absurd heq.symm paths_ne_archived
    · exact .inr (.inr ⟨nodes_eq_paths_iff.1 heq.symm, hname⟩)
    · exact absurd heq paths_ne_archived
    · exact .inl (hsame _ heq)
  · rintro (⟨rfl, h⟩ | ⟨h, rfl⟩ | ⟨h, rfl⟩)
    · exact ⟨h, h⟩
    · exact ⟨mem_names.2 (.inl (nodes_eq_paths_iff.2 h).symm), mem_names.2 (.inr (.inr rfl))⟩
    · exact ⟨mem_names.2 (.inr (.inr rfl)), mem_names.2 (.inl (nodes_eq_paths_iff.2 h).symm)⟩

/-! ## A database -/

/-- The columns of a table after the tables of the kinds were created in this order. A table that is
there already is left as it is, so that the first definition stands. -/
def columns? (kinds : List Kind) (table : String) : Option (List String) :=
  (kinds.flatMap fun k => (ofKind k).definitions).lookup table

/-- No kind's records would stand among the closure rows of another. -/
def Apart (kinds : List Kind) : Prop := ∀ a ∈ kinds, ∀ b ∈ kinds, ¬ a.IsPathOf b

instance (kinds : List Kind) : Decidable (Apart kinds) :=
  inferInstanceAs (Decidable (∀ a ∈ kinds, ∀ b ∈ kinds, ¬ a.IsPathOf b))

theorem Apart.eq_of_mem_names {kinds : List Kind} (h : Apart kinds) (ha : a ∈ kinds)
    (hb : b ∈ kinds) (hname : name ∈ (ofKind a).names) (hname' : name ∈ (ofKind b).names) :
    a = b := by
  rcases (mem_names_and_iff a b name).1 ⟨hname, hname'⟩ with ⟨heq, -⟩ | ⟨hpath, -⟩ | ⟨hpath, -⟩
  · exact heq
  · exact absurd hpath (h a ha b hb)
  · exact absurd hpath (h b hb a ha)

theorem nodup_names_iff (kinds : List Kind) :
    (kinds.flatMap fun k => (ofKind k).names).Nodup ↔ kinds.Nodup ∧ Apart kinds := by
  rw [List.nodup_flatMap]
  constructor
  · rintro ⟨-, hdisjoint⟩
    refine ⟨hdisjoint.imp fun {a b} hab => ?_, fun a ha b hb hpath => ?_⟩
    · rintro rfl
      exact hab (mem_names.2 (.inl rfl)) (mem_names.2 (.inl rfl))
    · have hne : a ≠ b := fun h => a.not_isPathOf_self (h ▸ hpath)
      obtain ⟨hname, hname'⟩ := (mem_names_and_iff a b _).2 (.inr (.inl ⟨hpath, rfl⟩))
      have hsymm : Std.Symm (Function.onFun List.Disjoint fun k => (ofKind k).names) :=
        ⟨fun _ _ => List.disjoint_symm⟩
      exact hdisjoint.forall ha hb hne hname hname'
  · rintro ⟨hnodup, hapart⟩
    refine ⟨fun k _ => nodup_names k, ?_⟩
    refine hnodup.imp_of_mem fun {a b} ha hb hne name hname hname' => ?_
    exact hne (hapart.eq_of_mem_names ha hb hname hname')

/-- Within a hierarchy a name has one definition. -/
theorem columns_unique {columns columns' : List String}
    (h : (name, columns) ∈ (ofKind k).definitions)
    (h' : (name, columns') ∈ (ofKind k).definitions) : columns = columns' := by
  have hkeys : ((ofKind k).definitions.map Prod.fst).Nodup := nodup_names k
  exact congrArg Prod.snd (List.inj_on_of_nodup_map hkeys h h' rfl)

theorem columns?_eq_some {kinds : List Kind} {columns : List String}
    (h : columns? kinds name = some columns) :
    ∃ k ∈ kinds, (name, columns) ∈ (ofKind k).definitions := by
  obtain ⟨before, after, hsplit, -⟩ := List.lookup_eq_some_iff.1 h
  exact List.mem_flatMap.1 (hsplit ▸ List.mem_append_right before List.mem_cons_self)

theorem exists_columns? {kinds : List Kind} {d : String × List String} (hk : k ∈ kinds)
    (hd : d ∈ (ofKind k).definitions) : ∃ columns, columns? kinds d.1 = some columns :=
  Option.isSome_iff_exists.1
    (List.lookup_isSome_iff.2 ⟨d, List.mem_flatMap.2 ⟨k, hk, hd⟩, beq_self_eq_true d.1⟩)

theorem columns?_eq_iff (kinds : List Kind) :
    (∀ k ∈ kinds, ∀ d ∈ (ofKind k).definitions, columns? kinds d.1 = some d.2) ↔ Apart kinds := by
  constructor
  · intro h a ha b hb hpath
    have hrecords := h a ha ((ofKind a).nodes, recordColumns) (by simp [definitions])
    have hpaths := h b hb ((ofKind b).paths, pathColumns) (by simp [definitions])
    rw [nodes_eq_paths_iff.2 hpath, hpaths] at hrecords
    have hcolumns : pathColumns = recordColumns := Option.some.inj hrecords
    exact absurd hcolumns (by decide)
  · intro hapart k hk d hd
    obtain ⟨columns, hcolumns⟩ := exists_columns? hk hd
    obtain ⟨k', hk', hd'⟩ := columns?_eq_some hcolumns
    have hname : d.1 ∈ (ofKind k).names := names_eq _ ▸ List.mem_map_of_mem hd
    have hname' : d.1 ∈ (ofKind k').names := names_eq _ ▸ List.mem_map.2 ⟨_, hd', rfl⟩
    obtain rfl : k = k' := hapart.eq_of_mem_names hk hk' hname hname'
    rw [hcolumns, columns_unique hd' hd]

/-- A table that two different kinds of a database have in common holds the records of the one and
the closure rows of the other, and the name of the one is that of the other with `_path` after it.
The tables of different kinds are all different, and each comes to have the columns of its
hierarchy, if and only if there are no two such kinds. -/
theorem owned_iff (kinds : List Kind) :
    (∀ a ∈ kinds, ∀ b ∈ kinds, ∀ name,
      name ∈ (ofKind a).names ∧ name ∈ (ofKind b).names ↔
        (a = b ∧ name ∈ (ofKind a).names) ∨ (a.IsPathOf b ∧ name = (ofKind b).paths) ∨
          (b.IsPathOf a ∧ name = (ofKind a).paths)) ∧
      ((kinds.flatMap fun k => (ofKind k).names).Nodup ↔ kinds.Nodup ∧ Apart kinds) ∧
      ((∀ k ∈ kinds, ∀ d ∈ (ofKind k).definitions, columns? kinds d.1 = some d.2) ↔
        Apart kinds) :=
  ⟨fun a _ b _ => mem_names_and_iff a b, nodup_names_iff kinds, columns?_eq_iff kinds⟩

/-- The closure rows of `role` and the records of `role_path` would stand in one table. -/
theorem role_paths_shared :
    let role : Kind := ⟨"role"⟩
    let rolePath : Kind := ⟨"role_path"⟩
    role.IsPlain ∧ rolePath.IsPlain ∧ role ≠ rolePath ∧
      (ofKind role).paths = "role_paths" ∧ (ofKind rolePath).nodes = "role_paths" ∧
      columns? [role, rolePath] "role_paths" = some pathColumns ∧
      columns? [rolePath, role] "role_paths" = some recordColumns :=
  ⟨by simp [Kind.IsPlain], by simp [Kind.IsPlain], by decide, rfl, rfl, rfl, rfl⟩

end Tables

end Lineage
