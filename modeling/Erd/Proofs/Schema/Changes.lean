import Erd.Proofs.Schema.Matching
import Erd.Proofs.Schema.Validity
import Erd.Grammar.Document
import Erd.Schema.Changes

/-!
# Versions without changes

Columns and tables are compared by name and relations by key.  Where names and keys are distinct, nothing has
changed exactly if the versions agree: they have the same names and keys, columns of a name have one display
type, primary key and `not null` flag, and relations of a key have one type.

A valid schema has distinct names, but nothing forbids it two relations of one key.  Compared with itself, the
second of them is taken for a change of the first if their types differ.

    (t.changes u).change = .unchanged ↔ t.Agrees u                             (change_eq_unchanged)
    (s.changes t).hasChanges = false ↔ s.Agrees t                              (hasChanges_eq_false)
    s.check.valid → ((s.changes s).hasChanges = false ↔ one type for each key)        (changes_self)
-/

namespace Erd

/-! ## Comparisons -/

namespace Column

def comparison : Comparison Column ColumnChange where
  key := Column.name
  name := ColumnChange.name
  both c d := ⟨c.name, .ofDifference (c.differs d), some c.displayType, some d.displayType⟩
  gone := removed
  fresh := added
  name_both _ := rfl
  name_gone _ := rfl
  name_fresh _ := rfl

/-- What a comparison looks at. -/
def Agrees (c d : Column) : Prop :=
  c.displayType = d.displayType ∧ c.settings.primaryKey = d.settings.primaryKey ∧
    c.settings.notNull = d.settings.notNull

theorem changeIn_eq (u : Table) (c : Column) : c.changeIn u = comparison.entryIn u.columns c := by
  have hentry : comparison.entryIn u.columns c = (u.column? c.name).elim c.removed (comparison.both c) := rfl
  rw [hentry, changeIn]
  cases u.column? c.name <;> rfl

theorem differs_eq_false {c d : Column} : c.differs d = false ↔ c.Agrees d := by
  simp [differs, Agrees, and_assoc]

end Column

namespace Table

def comparison : Comparison Table TableChange where
  key := Table.name
  name := TableChange.name
  both := changes
  gone := removed
  fresh := added
  name_both h := h.symm
  name_gone _ := rfl
  name_fresh _ := rfl

theorem changeIn_eq (s : Schema) (t : Table) : t.changeIn s = comparison.entryIn s.tables t := by
  have hentry : comparison.entryIn s.tables t = (s.table? t.name).elim t.removed (comparison.both t) := rfl
  rw [hentry, changeIn]
  cases s.table? t.name <;> rfl

theorem columns_changes (t u : Table) :
    (t.changes u).columns = Column.comparison.entries t.columns u.columns := by
  have hchange : Column.changeIn u = Column.comparison.entryIn u.columns := funext (Column.changeIn_eq u)
  rw [changes, hchange]
  rfl

/-- The same column names, and columns of a name that agree. -/
structure Agrees (t u : Table) : Prop where
  names : ∀ x, x ∈ t.columns.map (·.name) ↔ x ∈ u.columns.map (·.name)
  columns : ∀ c ∈ t.columns, ∀ d ∈ u.columns, c.name = d.name → c.Agrees d

end Table

namespace Relation

def comparison : Comparison Relation RelationChange where
  key := Relation.key
  name := RelationChange.key
  both r q := ⟨r.key, .ofDifference (q.type ≠ r.type)⟩
  gone r := ⟨r.key, .removed⟩
  fresh := added
  name_both _ := rfl
  name_gone _ := rfl
  name_fresh _ := rfl

theorem changeIn_eq (rs : List Relation) (r : Relation) : r.changeIn rs = comparison.entryIn rs r := by
  have hentry : comparison.entryIn rs r =
      (relationOfKey? rs r.key).elim ⟨r.key, .removed⟩ (comparison.both r) := rfl
  rw [hentry, changeIn]
  cases relationOfKey? rs r.key <;> rfl

end Relation

namespace Schema

variable {s t : Schema}

theorem tables_changes (s t : Schema) :
    (s.changes t).tables = Table.comparison.entries s.tables t.tables := by
  have hchange : Table.changeIn t = Table.comparison.entryIn t.tables := funext (Table.changeIn_eq t)
  rw [changes, hchange]
  rfl

theorem relations_changes (s t : Schema) :
    (s.changes t).relations = Relation.comparison.entries s.relations t.relations := by
  have hchange : Relation.changeIn t.relations = Relation.comparison.entryIn t.relations :=
    funext (Relation.changeIn_eq t.relations)
  rw [changes, hchange]
  rfl

/-- Names and keys that are distinct. -/
structure Keyed (s : Schema) : Prop where
  tables : (s.tables.map (·.name)).Nodup
  columns : ∀ t ∈ s.tables, (t.columns.map (·.name)).Nodup
  relations : (s.relations.map (·.key)).Nodup

/-- The same tables and relations, as far as a comparison looks at them. -/
structure Agrees (s t : Schema) : Prop where
  names : ∀ x, x ∈ s.tables.map (·.name) ↔ x ∈ t.tables.map (·.name)
  tables : ∀ a ∈ s.tables, ∀ b ∈ t.tables, a.name = b.name → a.Agrees b
  keys : ∀ x, x ∈ s.relations.map (·.key) ↔ x ∈ t.relations.map (·.key)
  types : ∀ r ∈ s.relations, ∀ q ∈ t.relations, r.key = q.key → r.type = q.type

end Schema

/-! ## Nothing changed -/

theorem Change.ofDifference_eq_unchanged {differs : Bool} :
    ofDifference differs = .unchanged ↔ differs = false := by
  cases differs with
  | true => exact ⟨nofun, nofun⟩
  | false => exact ⟨fun _ => rfl, fun _ => rfl⟩

theorem any_changed_eq_false {β : Type} {change : β → Change} {xs : List β} :
    (xs.any fun x => change x ≠ .unchanged) = false ↔ ∀ x ∈ xs, change x = .unchanged := by
  simp

/-- A table is unchanged exactly if it agrees with the one it is compared with. -/
theorem Table.change_eq_unchanged {t u : Table} (hu : (u.columns.map (·.name)).Nodup) :
    (t.changes u).change = .unchanged ↔ t.Agrees u := by
  have hchange : (t.changes u).change = .ofDifference ((t.changes u).columns.any (·.change ≠ .unchanged)) := rfl
  rw [hchange, Change.ofDifference_eq_unchanged, any_changed_eq_false, columns_changes,
    Column.comparison.forall_entries (q := Column.Agrees) hu ?_ (fun _ => nofun) (fun _ => nofun)]
  · exact ⟨fun ⟨hnames, hcolumns⟩ => ⟨hnames, hcolumns⟩, fun h => ⟨h.names, h.columns⟩⟩
  · intro c _ d _ _
    exact Change.ofDifference_eq_unchanged.trans Column.differs_eq_false

theorem Relation.change_eq_unchanged {r q : Relation} :
    (Relation.comparison.both r q).change = .unchanged ↔ r.type = q.type := by
  refine Change.ofDifference_eq_unchanged.trans ?_
  rw [decide_eq_false_iff_not, not_not]
  exact eq_comm

namespace SchemaChanges

theorem hasChanges_iff {d : SchemaChanges} : d.hasChanges = false ↔
    (∀ x ∈ d.tables, x.change = .unchanged) ∧ ∀ x ∈ d.relations, x.change = .unchanged := by
  rw [hasChanges, Bool.or_eq_false_iff, any_changed_eq_false, any_changed_eq_false]

theorem summary_eq_zero {d : SchemaChanges} (h : ∀ x ∈ d.tables, x.change = .unchanged) :
    d.summary = ⟨0, 0, 0⟩ := by
  have hnone {c : Change} (hc : c ≠ .unchanged) : d.tables.countP (·.change = c) = 0 := by
    rw [List.countP_eq_zero]
    intro x hx
    rw [h x hx]
    simpa using hc.symm
  exact (ChangeSummary.mk.injEq ..).mpr ⟨hnone nofun, hnone nofun, hnone nofun⟩

end SchemaChanges

namespace Schema

variable {s t : Schema}

/-- Nothing has changed exactly if the two versions agree. -/
theorem hasChanges_eq_false (ht : t.Keyed) : (s.changes t).hasChanges = false ↔ s.Agrees t := by
  rw [SchemaChanges.hasChanges_iff, tables_changes, relations_changes,
    Table.comparison.forall_entries (q := Table.Agrees) ht.tables ?_ (fun _ => nofun) (fun _ => nofun),
    Relation.comparison.forall_entries (q := fun r q => r.type = q.type) ht.relations ?_ (fun _ => nofun)
      (fun _ => nofun)]
  · exact ⟨fun ⟨⟨hnames, htables⟩, hkeys, htypes⟩ => ⟨hnames, htables, hkeys, htypes⟩,
      fun h => ⟨⟨h.names, h.tables⟩, h.keys, h.types⟩⟩
  · intro r _ q _ _
    exact Relation.change_eq_unchanged
  · intro a _ b hb _
    exact Table.change_eq_unchanged (ht.columns b hb)

/-! ## A schema compared with itself -/

end Schema

theorem Table.agrees_self {t : Table} (h : (t.columns.map (·.name)).Nodup) : t.Agrees t := by
  refine ⟨fun _ => Iff.rfl, fun c hc d hd hname => ?_⟩
  rw [List.inj_on_of_nodup_map h hc hd hname]
  exact ⟨rfl, rfl, rfl⟩

namespace Schema

/-- Every table of a schema with distinct names is unchanged against itself. -/
theorem tables_changes_self {s : Schema} (htables : (s.tables.map (·.name)).Nodup)
    (hcolumns : ∀ t ∈ s.tables, (t.columns.map (·.name)).Nodup) :
    ∀ x ∈ (s.changes s).tables, x.change = .unchanged := by
  rw [tables_changes, Table.comparison.entries_self_of_nodup htables, List.forall_mem_map]
  intro t ht
  exact (Table.change_eq_unchanged (hcolumns t ht)).2 (Table.agrees_self (hcolumns t ht))

/-- Every relation of a schema is unchanged against the schema itself exactly if those of one key have one type. -/
theorem relations_changes_self (s : Schema) : (∀ x ∈ (s.changes s).relations, x.change = .unchanged) ↔
    ∀ r ∈ s.relations, ∀ q ∈ s.relations, r.key = q.key → r.type = q.type := by
  rw [relations_changes, Relation.comparison.entries_self, List.forall_mem_map]
  simp only [Relation.change_eq_unchanged]
  -- a relation is compared with the first of its key
  have hfirst {r : Relation} (hr : r ∈ s.relations) : ∃ q ∈ s.relations, q.key = r.key ∧
      Relation.comparison.first? s.relations r.key = some q := by
    cases hq : Relation.comparison.first? s.relations r.key with
    | none => exact absurd (List.mem_map_of_mem hr) (Relation.comparison.first_eq_none.1 hq)
    | some q =>
      obtain ⟨hmem, hkey⟩ := Relation.comparison.mem_of_first hq
      exact ⟨q, hmem, hkey, rfl⟩
  constructor
  · intro h r hr q hq hkey
    obtain ⟨f, -, -, hf⟩ := hfirst hr
    have hr' := h r hr
    have hq' := h q hq
    simp only [Relation.comparison] at hr' hq' hf
    rw [hf] at hr'
    rw [← hkey, hf] at hq'
    exact hr'.trans hq'.symm
  · intro h r hr
    obtain ⟨f, hmem, hkey, hf⟩ := hfirst hr
    have hf' : Relation.comparison.first? s.relations (Relation.comparison.key r) = some f := hf
    rw [hf']
    exact h r hr f hmem hkey.symm

/-- A valid schema compared with itself has no changed table, and it has no changes at all exactly if its relations
of one key have one type. -/
theorem changes_self {s : Schema} (h : s.check.valid = true) : (s.changes s).summary = ⟨0, 0, 0⟩ ∧
    ((s.changes s).hasChanges = false ↔
      ∀ r ∈ s.relations, ∀ q ∈ s.relations, r.key = q.key → r.type = q.type) := by
  obtain ⟨htables, hcolumns, -⟩ := isValid_iff.1 (show s.isValid = true from h)
  have hunchanged := tables_changes_self htables hcolumns
  refine ⟨SchemaChanges.summary_eq_zero hunchanged, ?_⟩
  rw [SchemaChanges.hasChanges_iff, relations_changes_self]
  exact ⟨And.right, fun hrelations => ⟨hunchanged, hrelations⟩⟩

/-- Two relations between the same columns, of different types. -/
def forked : Schema :=
  { tables :=
      [{ name := "a", columns := [{ name := "x", type := .int, rawType := some "int", settings := { primaryKey := true } }] },
       { name := "b", columns := [{ name := "y", type := .int, rawType := some "int", settings := { primaryKey := true } }] }]
    relations :=
      [{ source := ⟨"a", "x"⟩, target := ⟨"b", "y"⟩, type := .manyToOne },
       { source := ⟨"a", "x"⟩, target := ⟨"b", "y"⟩, type := .oneToOne }] }

/-- The second of two relations between the same columns is taken for a change of the first. -/
theorem changes_self_forked :
    parse "Table a \x7b x int [pk] \x7d\nTable b \x7b y int [pk] \x7d\nRef: a.x > b.y\nRef: a.x - b.y\n" = .ok forked ∧
      forked.check.valid = true ∧ (forked.changes forked).hasChanges = true := by
  have hvalid : forked.check.valid = true := by decide
  refine ⟨by decide +kernel, hvalid, ?_⟩
  rw [← Bool.not_eq_false, (changes_self hvalid).2]
  intro h
  exact absurd (h forked.relations[0] (List.getElem_mem _) forked.relations[1] (List.getElem_mem _) rfl) (by decide)

end Schema

end Erd
