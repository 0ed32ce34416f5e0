/-
# Two tables with a foreign key

The rows of one table have a key, and the rows of the other one have a key of their own and refer
to a row of the first. A statement runs as a whole or changes nothing: rows with the key of another
one are not inserted, and where foreign keys are enforced, neither are rows that refer to nothing,
and what refers to a deleted row is deleted with it.

Then every row refers to a row that is there, and what is inserted stays in the order in which it
came.
-/

import Mathlib.Data.List.Nodup

/-- What the tables say about their rows. -/
structure TableSchema (Parent Child Key ChildKey : Type*) where
  parentKey : Parent → Key
  childKey : Child → ChildKey
  reference : Child → Key

/-- The rows of both tables, in the order in which they were inserted. -/
structure LinkedTables (Parent Child : Type*) where
  parents : List Parent
  children : List Child
  /-- Foreign keys are enforced. -/
  foreignKeys : Bool

namespace LinkedTables

variable {Parent Child Key ChildKey : Type*} [DecidableEq Key]
  (schema : TableSchema Parent Child Key ChildKey)

/-! ## Statements -/

section Statements

variable (tables : LinkedTables Parent Child)

def keys : List Key := tables.parents.map schema.parentKey

/-- The rows that refer to a key. -/
def childrenOf (key : Key) : List Child :=
  tables.children.filter fun row => schema.reference row = key

/-- Insert a row into the first table. -/
def insertParent (row : Parent) : Option (LinkedTables Parent Child) :=
  if schema.parentKey row ∈ tables.keys schema then none
  else some { tables with parents := tables.parents ++ [row] }

/-- Insert a row into the second table. -/
def insertChild [DecidableEq ChildKey] (row : Child) : Option (LinkedTables Parent Child) :=
  if schema.childKey row ∈ tables.children.map schema.childKey then none
  else if tables.foreignKeys && decide (schema.reference row ∉ tables.keys schema) then none
  else some { tables with children := tables.children ++ [row] }

/-- Change the row with this key, and count the rows changed. -/
def updateParent (key : Key) (change : Parent → Parent) : LinkedTables Parent Child × ℕ :=
  ({ tables with
      parents := tables.parents.map fun row =>
        if schema.parentKey row = key then change row else row },
    (tables.keys schema).count key)

/-- Delete the row with this key, and count the rows deleted from the first table. -/
def deleteParent (key : Key) : LinkedTables Parent Child × ℕ :=
  ({ tables with
      parents := tables.parents.filter fun row => schema.parentKey row ≠ key
      children :=
        if tables.foreignKeys then tables.children.filter fun row => schema.reference row ≠ key
        else tables.children },
    (tables.keys schema).count key)

end Statements

/-! ## Soundness -/

/-- Foreign keys are enforced, keys are keys, and every row refers to one that is there. -/
structure Sound (tables : LinkedTables Parent Child) : Prop where
  enforced : tables.foreignKeys = true
  parents_nodup : (tables.keys schema).Nodup
  children_nodup : (tables.children.map schema.childKey).Nodup
  referenced : ∀ row ∈ tables.children, schema.reference row ∈ tables.keys schema

variable {schema} {tables tables' : LinkedTables Parent Child}

theorem insertParent_eq_some_iff {row : Parent} :
    tables.insertParent schema row = some tables' ↔
      schema.parentKey row ∉ tables.keys schema ∧
        { tables with parents := tables.parents ++ [row] } = tables' := by
  rw [insertParent]
  split
  · rename_i hkey
    exact iff_of_false (by simp) fun h => h.1 hkey
  · rename_i hkey
    rw [Option.some_inj, and_iff_right hkey]

theorem insertChild_eq_some_iff [DecidableEq ChildKey] {row : Child} :
    tables.insertChild schema row = some tables' ↔
      schema.childKey row ∉ tables.children.map schema.childKey ∧
        (tables.foreignKeys = true → schema.reference row ∈ tables.keys schema) ∧
        { tables with children := tables.children ++ [row] } = tables' := by
  rw [insertChild]
  split
  · rename_i hkey
    exact iff_of_false (by simp) fun h => h.1 hkey
  · rename_i hkey
    rw [and_iff_right hkey]
    split
    · rename_i hreference
      rw [Bool.and_eq_true, decide_eq_true_eq] at hreference
      exact iff_of_false (by simp) fun h => hreference.2 (h.1 hreference.1)
    · rename_i hreference
      rw [Bool.and_eq_true, decide_eq_true_eq, not_and, not_not] at hreference
      rw [Option.some_inj, and_iff_right hreference]

theorem keys_updateParent {key : Key} {change : Parent → Parent}
    (hchange : ∀ row, schema.parentKey (change row) = schema.parentKey row) :
    (tables.updateParent schema key change).1.keys schema = tables.keys schema := by
  rw [keys, keys, updateParent, List.map_map]
  apply List.map_congr_left
  intro row _
  dsimp only [Function.comp_apply]
  split
  · exact hchange row
  · rfl

theorem keys_deleteParent (key : Key) :
    (tables.deleteParent schema key).1.keys schema =
      (tables.keys schema).filter fun other => other ≠ key := by
  rw [keys, keys, deleteParent, List.filter_map]
  rfl

theorem Sound.insertParent {row : Parent} (h : tables.Sound schema)
    (hinsert : tables.insertParent schema row = some tables') : tables'.Sound schema := by
  obtain ⟨hkey, rfl⟩ := insertParent_eq_some_iff.mp hinsert
  have hkeys : (LinkedTables.mk (tables.parents ++ [row]) tables.children
      tables.foreignKeys).keys schema = tables.keys schema ++ [schema.parentKey row] := by
    rw [keys, List.map_append]
    rfl
  refine ⟨h.enforced, ?_, h.children_nodup, ?_⟩
  · rw [hkeys]
    exact List.concat_eq_append ▸ h.parents_nodup.concat hkey
  · rw [hkeys]
    exact fun child hchild => List.mem_append_left _ (h.referenced child hchild)

theorem Sound.insertChild [DecidableEq ChildKey] {row : Child} (h : tables.Sound schema)
    (hinsert : tables.insertChild schema row = some tables') : tables'.Sound schema := by
  obtain ⟨hkey, hreference, rfl⟩ := insertChild_eq_some_iff.mp hinsert
  refine ⟨h.enforced, h.parents_nodup, ?_, ?_⟩
  · rw [List.map_append]
    exact List.concat_eq_append ▸ h.children_nodup.concat hkey
  · intro child hchild
    rcases List.mem_append.mp hchild with hold | hnew
    · exact h.referenced child hold
    · rw [List.mem_singleton.mp hnew]
      exact hreference h.enforced

theorem Sound.updateParent {change : Parent → Parent} (h : tables.Sound schema)
    (hchange : ∀ row, schema.parentKey (change row) = schema.parentKey row) (key : Key) :
    (tables.updateParent schema key change).1.Sound schema := by
  have hkeys : (tables.updateParent schema key change).1.keys schema = tables.keys schema :=
    keys_updateParent hchange
  exact {
    enforced := h.enforced
    parents_nodup := hkeys ▸ h.parents_nodup
    children_nodup := h.children_nodup
    referenced := hkeys ▸ h.referenced }

/-- With foreign keys the rows that refer to the deleted one are deleted, and no others. -/
theorem Sound.children_deleteParent (h : tables.Sound schema) (key : Key) :
    (tables.deleteParent schema key).1.children =
      tables.children.filter fun row => schema.reference row ≠ key := if_pos h.enforced

theorem Sound.deleteParent (h : tables.Sound schema) (key : Key) :
    (tables.deleteParent schema key).1.Sound schema := by
  refine ⟨h.enforced, ?_, ?_, ?_⟩
  · rw [keys_deleteParent]
    exact h.parents_nodup.filter _
  · rw [h.children_deleteParent]
    exact h.children_nodup.sublist (List.filter_sublist.map _)
  · intro row hrow
    rw [h.children_deleteParent, List.mem_filter] at hrow
    rw [keys_deleteParent, List.mem_filter]
    exact ⟨h.referenced row hrow.1, hrow.2⟩

/-! ## What refers to a key -/

/-- Nothing refers to a key that is not there. -/
theorem Sound.childrenOf_eq_nil (h : tables.Sound schema) {key : Key}
    (hkey : key ∉ tables.keys schema) : tables.childrenOf schema key = [] := by
  rw [childrenOf, List.filter_eq_nil_iff]
  intro row hrow hreference
  rw [decide_eq_true_eq] at hreference
  exact hkey (hreference ▸ h.referenced row hrow)

/-- A new row is the last that refers to its key. -/
theorem childrenOf_insertChild [DecidableEq ChildKey] {row : Child}
    (h : tables.insertChild schema row = some tables') (key : Key) :
    tables'.childrenOf schema key =
      tables.childrenOf schema key ++ if schema.reference row = key then [row] else [] := by
  obtain ⟨-, -, rfl⟩ := insertChild_eq_some_iff.mp h
  rw [childrenOf, childrenOf, List.filter_append]
  apply congrArg (tables.childrenOf schema key ++ ·)
  by_cases hkey : schema.reference row = key
  · rw [if_pos hkey, List.filter_cons_of_pos (by simpa using hkey), List.filter_nil]
  · rw [if_neg hkey, List.filter_cons_of_neg (by simpa using hkey), List.filter_nil]

theorem Sound.childrenOf_deleteParent (h : tables.Sound schema) (key other : Key) :
    (tables.deleteParent schema key).1.childrenOf schema other =
      if other = key then [] else tables.childrenOf schema other := by
  rw [childrenOf, h.children_deleteParent, List.filter_filter]
  split
  · rename_i hsame
    rw [List.filter_eq_nil_iff]
    intro row _ hrow
    simp only [Bool.and_eq_true, decide_eq_true_eq] at hrow
    exact hrow.2 (hrow.1.trans hsame)
  · rename_i hother
    rw [childrenOf]
    apply List.filter_congr
    intro row _
    by_cases hrow : schema.reference row = other
    · simp [hrow, hother]
    · simp [hrow]

/-! ## Statements that find no row -/

/-- A statement that changes no row leaves the tables as they are. -/
theorem updateParent_of_count {key : Key} {change : Parent → Parent}
    (hcount : (tables.updateParent schema key change).2 = 0) :
    (tables.updateParent schema key change).1 = tables := by
  have hkey : key ∉ tables.keys schema := List.count_eq_zero.mp hcount
  have hrows : tables.parents.map (fun row =>
      if schema.parentKey row = key then change row else row) = tables.parents := by
    conv_rhs => rw [← List.map_id tables.parents]
    apply List.map_congr_left
    intro row hrow
    have hother : schema.parentKey row ≠ key := fun h => hkey (h ▸ List.mem_map_of_mem hrow)
    rw [if_neg hother]
    rfl
  rw [updateParent, hrows]

theorem Sound.deleteParent_of_count (h : tables.Sound schema) {key : Key}
    (hcount : (tables.deleteParent schema key).2 = 0) :
    (tables.deleteParent schema key).1 = tables := by
  have hkey : key ∉ tables.keys schema := List.count_eq_zero.mp hcount
  have hparents : tables.parents.filter (fun row => schema.parentKey row ≠ key) =
      tables.parents := by
    rw [List.filter_eq_self]
    intro row hrow
    exact decide_eq_true fun hsame => hkey (hsame ▸ List.mem_map_of_mem hrow)
  have hchildren : tables.children.filter (fun row => schema.reference row ≠ key) =
      tables.children := by
    rw [List.filter_eq_self]
    intro row hrow
    exact decide_eq_true fun hsame => hkey (hsame ▸ h.referenced row hrow)
  rw [LinkedTables.deleteParent, hparents, hchildren, ite_self]

end LinkedTables
