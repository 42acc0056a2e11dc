import Mathlib.Data.Multiset.Basic
import Erd.Proofs.Schema.Changes

/-!
# Two versions of a schema

Where names and keys are distinct, the changes from one version to another say of every table, column and
relation of either what became of it, once.  From the new version back to the old one the changes are the
same, read backwards: what was added is removed, and old and new types change places.

    (s.changes t).Between s t                                                    (changes_between)
    (t.changes s).SameEntries (s.changes t).mirror                                (changes_mirror)
-/

namespace Erd

/-! ## Definitions -/

/-- The names of the old version in its order, then those that only the new one has, each of them once. -/
structure ListsOnce (old new names : List String) : Prop where
  order : names = old ++ new.filter (· ∉ old)
  nodup : names.Nodup

/-- What became of a column between two versions of a table. -/
inductive ColumnChange.Between (old new : List Column) : ColumnChange → Prop
  | removed {c : Column} (hc : c ∈ old) (hnew : c.name ∉ new.map (·.name)) :
      Between old new ⟨c.name, .removed, some c.displayType, none⟩
  | added {d : Column} (hd : d ∈ new) (hold : d.name ∉ old.map (·.name)) :
      Between old new ⟨d.name, .added, none, some d.displayType⟩
  | unchanged {c d : Column} (hc : c ∈ old) (hd : d ∈ new) (hname : c.name = d.name) (hagree : c.Agrees d) :
      Between old new ⟨c.name, .unchanged, some c.displayType, some d.displayType⟩
  | modified {c d : Column} (hc : c ∈ old) (hd : d ∈ new) (hname : c.name = d.name) (hdiffer : ¬c.Agrees d) :
      Between old new ⟨c.name, .modified, some c.displayType, some d.displayType⟩

namespace TableChange

/-- The columns of two versions of a table, and what became of each. -/
structure ListsColumns (t u : Table) (x : TableChange) : Prop where
  names : ListsOnce (t.columns.map (·.name)) (u.columns.map (·.name)) (x.columns.map (·.name))
  columns : ∀ y ∈ x.columns, y.Between t.columns u.columns

/-- What became of a table between two versions of a schema. -/
inductive Between (old new : List Table) (x : TableChange) : Prop
  | removed {t : Table} (ht : t ∈ old) (hnew : t.name ∉ new.map (·.name))
      (hx : x = ⟨t.name, .removed, t.columns.map Column.removed⟩)
  | added {u : Table} (hu : u ∈ new) (hold : u.name ∉ old.map (·.name))
      (hx : x = ⟨u.name, .added, u.columns.map Column.added⟩)
  | unchanged {t u : Table} (ht : t ∈ old) (hu : u ∈ new) (hold : x.name = t.name) (hnew : x.name = u.name)
      (hagree : t.Agrees u) (hchange : x.change = .unchanged) (hcolumns : x.ListsColumns t u)
  | modified {t u : Table} (ht : t ∈ old) (hu : u ∈ new) (hold : x.name = t.name) (hnew : x.name = u.name)
      (hdiffer : ¬t.Agrees u) (hchange : x.change = .modified) (hcolumns : x.ListsColumns t u)

end TableChange

/-- What became of a relation between two versions of a schema. -/
inductive RelationChange.Between (old new : List Relation) : RelationChange → Prop
  | removed {r : Relation} (hr : r ∈ old) (hnew : r.key ∉ new.map (·.key)) : Between old new ⟨r.key, .removed⟩
  | added {q : Relation} (hq : q ∈ new) (hold : q.key ∉ old.map (·.key)) : Between old new ⟨q.key, .added⟩
  | unchanged {r q : Relation} (hr : r ∈ old) (hq : q ∈ new) (hkey : r.key = q.key) (htype : r.type = q.type) :
      Between old new ⟨r.key, .unchanged⟩
  | modified {r q : Relation} (hr : r ∈ old) (hq : q ∈ new) (hkey : r.key = q.key) (htype : r.type ≠ q.type) :
      Between old new ⟨r.key, .modified⟩

/-- Changes that say of every table and every relation of either version what became of it. -/
structure SchemaChanges.Between (s t : Schema) (d : SchemaChanges) : Prop where
  names : ListsOnce (s.tables.map (·.name)) (t.tables.map (·.name)) (d.tables.map (·.name))
  tables : ∀ x ∈ d.tables, x.Between s.tables t.tables
  keys : ListsOnce (s.relations.map (·.key)) (t.relations.map (·.key)) (d.relations.map (·.key))
  relations : ∀ x ∈ d.relations, x.Between s.relations t.relations

/-! ## Changes read backwards -/

def Change.mirror : Change → Change
  | added => removed
  | removed => added
  | modified => modified
  | unchanged => unchanged

def ColumnChange.mirror (x : ColumnChange) : ColumnChange := ⟨x.name, x.change.mirror, x.newType, x.oldType⟩

def RelationChange.mirror (x : RelationChange) : RelationChange := ⟨x.key, x.change.mirror⟩

namespace TableChange

def mirror (x : TableChange) : TableChange := ⟨x.name, x.change.mirror, x.columns.map ColumnChange.mirror⟩

/-- The changes of a table with its columns in no order. -/
def unordered (x : TableChange) : String × Change × Multiset ColumnChange := (x.name, x.change, x.columns)

end TableChange

namespace SchemaChanges

def mirror (d : SchemaChanges) : SchemaChanges :=
  ⟨d.tables.map TableChange.mirror, d.relations.map RelationChange.mirror⟩

/-- The same changes up to the order of tables, of the columns of each, and of relations. -/
structure SameEntries (d e : SchemaChanges) : Prop where
  tables : (d.tables.map TableChange.unordered).Perm (e.tables.map TableChange.unordered)
  relations : d.relations.Perm e.relations

end SchemaChanges

/-! ## Agreement -/

theorem Column.Agrees.symm {c d : Column} (h : c.Agrees d) : d.Agrees c := ⟨h.1.symm, h.2.1.symm, h.2.2.symm⟩

theorem Table.Agrees.symm {t u : Table} (h : t.Agrees u) : u.Agrees t :=
  ⟨fun x => (h.names x).symm, fun d hd c hc hname => (h.columns c hc d hd hname.symm).symm⟩

theorem Change.mirror_ofDifference (differs : Bool) : (ofDifference differs).mirror = ofDifference differs := by
  cases differs <;> rfl

theorem Change.ofDifference_of_ne {differs : Bool} (h : ofDifference differs ≠ .unchanged) :
    ofDifference differs = .modified := by
  cases differs with
  | true => rfl
  | false => exact absurd rfl h

theorem Change.ofDifference_congr {a b : Bool} (h : ofDifference a = .unchanged ↔ ofDifference b = .unchanged) :
    ofDifference a = ofDifference b := by
  rw [ofDifference_eq_unchanged, ofDifference_eq_unchanged] at h
  cases a <;> cases b <;> simp_all

/-! ## Every entry -/

theorem Comparison.listsOnce {ι β : Type} (m : Comparison ι β) {old new : List ι} (hold : (m.keys old).Nodup)
    (hnew : (m.keys new).Nodup) : ListsOnce (m.keys old) (m.keys new) ((m.entries old new).map m.name) :=
  ⟨m.names_entries old new, m.nodup_names hold hnew⟩

theorem Column.between_of_matched {old new : List Column} {x : ColumnChange} (h : comparison.Matched old new x) :
    x.Between old new := by
  cases h with
  | gone hc hnew => exact .removed hc hnew
  | fresh hd hold => exact .added hd hold
  | @both c d hc hd hname =>
    have hchange : Change.ofDifference (c.differs d) = .unchanged ↔ c.Agrees d :=
      Change.ofDifference_eq_unchanged.trans differs_eq_false
    by_cases hagree : c.Agrees d
    · have hx := ColumnChange.Between.unchanged hc hd hname hagree
      rwa [← hchange.2 hagree] at hx
    · have hx := ColumnChange.Between.modified hc hd hname hagree
      rwa [← Change.ofDifference_of_ne (mt hchange.1 hagree)] at hx

theorem Table.listsColumns {t u : Table} (ht : (t.columns.map (·.name)).Nodup)
    (hu : (u.columns.map (·.name)).Nodup) : (t.changes u).ListsColumns t u := by
  constructor
  · rw [columns_changes]
    exact Column.comparison.listsOnce ht hu
  · rw [columns_changes]
    intro y hy
    exact Column.between_of_matched ((Column.comparison.mem_entries hu).1 hy)

theorem Table.between_of_matched {old new : List Table} (hold : ∀ t ∈ old, (t.columns.map (·.name)).Nodup)
    (hnew : ∀ u ∈ new, (u.columns.map (·.name)).Nodup) {x : TableChange} (h : comparison.Matched old new x) :
    x.Between old new := by
  cases h with
  | gone ht hnew => exact .removed ht hnew rfl
  | fresh hu hold => exact .added hu hold rfl
  | @both t u ht hu hname =>
    have hcolumns := listsColumns (hold t ht) (hnew u hu)
    have hchange : (t.changes u).change = .unchanged ↔ t.Agrees u := change_eq_unchanged (hnew u hu)
    by_cases hagree : t.Agrees u
    · exact .unchanged ht hu hname.symm rfl hagree (hchange.2 hagree) hcolumns
    · exact .modified ht hu hname.symm rfl hagree (Change.ofDifference_of_ne (mt hchange.1 hagree)) hcolumns

theorem Relation.between_of_matched {old new : List Relation} {x : RelationChange}
    (h : comparison.Matched old new x) : x.Between old new := by
  cases h with
  | gone hr hnew => exact .removed hr hnew
  | fresh hq hold => exact .added hq hold
  | @both r q hr hq hkey =>
    by_cases htype : r.type = q.type
    · have hx := RelationChange.Between.unchanged hr hq hkey htype
      rwa [← change_eq_unchanged.2 htype] at hx
    · have hx := RelationChange.Between.modified hr hq hkey htype
      rwa [← Change.ofDifference_of_ne (mt change_eq_unchanged.1 htype)] at hx

namespace Schema

variable {s t : Schema}

/-- The changes say of every table, column and relation of either version what became of it. -/
theorem changes_between (hs : s.Keyed) (ht : t.Keyed) : (s.changes t).Between s t := by
  constructor
  · rw [tables_changes]
    exact Table.comparison.listsOnce hs.tables ht.tables
  · rw [tables_changes]
    intro x hx
    exact Table.between_of_matched hs.columns ht.columns ((Table.comparison.mem_entries ht.tables).1 hx)
  · rw [relations_changes]
    exact Relation.comparison.listsOnce hs.relations ht.relations
  · rw [relations_changes]
    intro x hx
    exact Relation.between_of_matched ((Relation.comparison.mem_entries ht.relations).1 hx)

end Schema

/-! ## The way back -/

theorem Column.mirror_both (c d : Column) (h : c.name = d.name) :
    (comparison.both c d).mirror = comparison.both d c := by
  have hchange : Change.ofDifference (c.differs d) = Change.ofDifference (d.differs c) := by
    refine Change.ofDifference_congr ?_
    rw [Change.ofDifference_eq_unchanged, Change.ofDifference_eq_unchanged, differs_eq_false, differs_eq_false]
    exact ⟨Agrees.symm, Agrees.symm⟩
  show (⟨c.name, (Change.ofDifference (c.differs d)).mirror, some d.displayType, some c.displayType⟩ :
    ColumnChange) = ⟨d.name, Change.ofDifference (d.differs c), some d.displayType, some c.displayType⟩
  rw [Change.mirror_ofDifference, hchange, h]

/-- A table has the same changes on the way back, read backwards. -/
theorem Table.unordered_mirror_changes {t u : Table} (ht : (t.columns.map (·.name)).Nodup)
    (hu : (u.columns.map (·.name)).Nodup) (hname : t.name = u.name) :
    (t.changes u).mirror.unordered = (u.changes t).unordered := by
  have hchange : (t.changes u).change.mirror = (u.changes t).change := by
    refine (Change.mirror_ofDifference _).trans (Change.ofDifference_congr ?_)
    exact (change_eq_unchanged hu).trans (Iff.trans ⟨Agrees.symm, Agrees.symm⟩ (change_eq_unchanged ht).symm)
  have hcolumns : ((t.changes u).columns.map ColumnChange.mirror).Perm (u.changes t).columns := by
    have hswap := Column.comparison.entries_swap (f := ColumnChange.mirror) (g := id) (n := ColumnChange.name)
      ht hu (fun _ => rfl) (fun _ => rfl) (fun c _ d _ h => Column.mirror_both c d h) (fun _ => rfl) (fun _ => rfl)
    rwa [List.map_id, ← columns_changes, ← columns_changes] at hswap
  exact Prod.ext hname.symm (Prod.ext hchange (Multiset.coe_eq_coe.2 hcolumns))

theorem Table.unordered_mirror_removed (t : Table) : t.removed.mirror.unordered = t.added.unordered := by
  have hcolumns : (t.columns.map Column.removed).map ColumnChange.mirror = t.columns.map Column.added :=
    List.map_map
  exact Prod.ext rfl (Prod.ext rfl (congrArg Multiset.ofList hcolumns))

theorem Table.unordered_mirror_added (t : Table) : t.added.mirror.unordered = t.removed.unordered := by
  have hcolumns : (t.columns.map Column.added).map ColumnChange.mirror = t.columns.map Column.removed :=
    List.map_map
  exact Prod.ext rfl (Prod.ext rfl (congrArg Multiset.ofList hcolumns))

theorem Relation.mirror_both (r q : Relation) (h : r.key = q.key) :
    (comparison.both r q).mirror = comparison.both q r := by
  have hchange : (comparison.both r q).change = (comparison.both q r).change := by
    refine Change.ofDifference_congr ?_
    exact change_eq_unchanged.trans (Iff.trans eq_comm change_eq_unchanged.symm)
  have hmirror : (comparison.both r q).change.mirror = (comparison.both r q).change := Change.mirror_ofDifference _
  exact (RelationChange.mk.injEq ..).mpr ⟨h, hmirror.trans hchange⟩

namespace Schema

variable {s t : Schema}

/-- On the way back the changes are the same, read backwards. -/
theorem changes_mirror (hs : s.Keyed) (ht : t.Keyed) : (t.changes s).SameEntries (s.changes t).mirror := by
  constructor
  · rw [tables_changes, SchemaChanges.mirror, tables_changes, List.map_map]
    refine (Table.comparison.entries_swap (f := TableChange.unordered ∘ TableChange.mirror) (n := Prod.fst)
      hs.tables ht.tables (fun _ => rfl) (fun _ => rfl) ?_ Table.unordered_mirror_removed
      Table.unordered_mirror_added).symm
    intro a ha b hb hname
    exact Table.unordered_mirror_changes (hs.columns a ha) (ht.columns b hb) hname
  · have hswap := Relation.comparison.entries_swap (f := RelationChange.mirror) (g := id)
      (n := RelationChange.key) hs.relations ht.relations (fun _ => rfl) (fun _ => rfl)
      (fun r _ q _ h => Relation.mirror_both r q h) (fun _ => rfl) (fun _ => rfl)
    rw [List.map_id] at hswap
    rw [relations_changes, SchemaChanges.mirror, relations_changes]
    exact hswap.symm

/-- The changes are exact, there are none exactly if the versions agree, and on the way back they are the same,
read backwards. -/
theorem changes_exact (hs : s.Keyed) (ht : t.Keyed) :
    (s.changes t).Between s t ∧ ((s.changes t).hasChanges = false ↔ s.Agrees t) ∧
      (t.changes s).SameEntries (s.changes t).mirror :=
  ⟨changes_between hs ht, hasChanges_eq_false ht, changes_mirror hs ht⟩

/-- A version with two tables and two relations. -/
def former : Schema :=
  { tables :=
      [{ name := "a", columns := [{ name := "x", type := .int }, { name := "y", type := .text }] },
       { name := "b", columns := [{ name := "z", type := .int }] }]
    relations :=
      [{ source := ⟨"a", "x"⟩, target := ⟨"b", "z"⟩, type := .manyToOne },
       { source := ⟨"a", "y"⟩, target := ⟨"b", "z"⟩, type := .oneToOne }] }

/-- The next one: the tables change places, a column is retyped, one is dropped and two are new, and so on. -/
def latter : Schema :=
  { tables :=
      [{ name := "c", columns := [{ name := "x", type := .int }] },
       { name := "b", columns := [{ name := "z", type := .int }] },
       { name := "a", columns := [{ name := "v", type := .int }, { name := "x", type := .uuid }, { name := "w", type := .int }] }]
    relations :=
      [{ source := ⟨"c", "x"⟩, target := ⟨"b", "z"⟩, type := .oneToMany },
       { source := ⟨"a", "x"⟩, target := ⟨"b", "z"⟩, type := .oneToOne }] }

theorem changes_latter : former.Keyed ∧ latter.Keyed ∧ (former.changes latter).Between former latter ∧
    ¬former.Agrees latter ∧ (latter.changes former).SameEntries (former.changes latter).mirror := by
  have hformer : former.Keyed := ⟨by decide, by decide, by decide⟩
  have hlatter : latter.Keyed := ⟨by decide, by decide, by decide⟩
  obtain ⟨hbetween, hagrees, hmirror⟩ := changes_exact hformer hlatter
  exact ⟨hformer, hlatter, hbetween, mt hagrees.2 (by decide), hmirror⟩

/-- Table by table, and back. -/
example : (former.changes latter).tables.map (fun x => (x.name, x.change)) =
      [("a", .modified), ("b", .unchanged), ("c", .added)] ∧
    (latter.changes former).tables.map (fun x => (x.name, x.change)) =
      [("c", .removed), ("b", .unchanged), ("a", .modified)] := by
  decide

end Schema

end Erd
