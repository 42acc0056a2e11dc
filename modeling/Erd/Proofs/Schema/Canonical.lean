import Erd.Grammar.Print
import Erd.Proofs.Decimal.Magnitude
import Erd.Proofs.Token.Terminal

/-!
# Canonical schemas

`Schema.Named` says that every name of a schema is one word.  A schema is `Canonical` if it is named and
holds nothing that a source cannot say, and `normalized` drops from a schema what a source cannot say.

    s.Canonical → s.Named                                                   (Canonical.named)
    s.Canonical → s.normalized = s                                          (Canonical.normalized_eq)
-/

namespace Erd

/-! ## Names -/

structure Endpoint.Named (e : Endpoint) : Prop where
  table : IsWord e.table
  column : IsWord e.column

structure Column.Named (c : Column) : Prop where
  name : IsWord c.name
  type : IsWord c.displayType

structure Table.Named (t : Table) : Prop where
  name : IsWord t.name
  schema : ∀ s ∈ t.schema, IsWord s
  shortName : ∀ a ∈ t.shortName, IsWord a
  columns : ∀ c ∈ t.columns, c.Named
  indexes : ∀ i ∈ t.indexes, ∀ c ∈ i.columns, IsWord c

structure Relation.Named (r : Relation) : Prop where
  name : ∀ n ∈ r.name, IsWord n
  source : r.source.Named
  target : r.target.Named

structure TableGroup.Named (g : TableGroup) : Prop where
  name : IsWord g.name
  tables : ∀ t ∈ g.tables, IsWord t

/-- Every name is one word; notes, values of enumerations and defaults may be any text. -/
structure Schema.Named (s : Schema) : Prop where
  tables : ∀ t ∈ s.tables, t.Named
  relations : ∀ r ∈ s.relations, r.Named
  enums : ∀ e ∈ s.enums, IsWord e.name
  groups : ∀ g ∈ s.groups, g.Named

/-! ## Types by name -/

/-- The first enumeration of a name. -/
def enumNamed? (enums : List Enumeration) (name : String) : Option Enumeration :=
  enums.find? (·.name == name)

/-- The type that a name denotes among some enumerations. -/
def typeNamed (enums : List Enumeration) (name : String) : ColumnType :=
  match enumNamed? enums name with
  | none => .ofTypeName name
  | some _ => .enum

/-- The values of the enumeration that a type name denotes, if it denotes one. -/
def valuesNamed (enums : List Enumeration) (name : String) : Option (List String) :=
  (enumNamed? enums name).map (·.valueNames)

/-! ## Canonical form -/

/-- A numeric default is a number. -/
def DefaultValue.Real (v : DefaultValue) : Prop := ∀ x, v = .number x → x.isNaN = false

/-- Precision and scale come together, and without a length. -/
structure ColumnSettings.Sized (s : ColumnSettings) : Prop where
  together : s.precision.isSome = s.scale.isSome
  length : s.precision.isSome → s.length = none

/-- A column as a source declares it among some enumerations. -/
structure Column.Canonical (enums : List Enumeration) (c : Column) : Prop where
  name : IsWord c.name
  rawType : ∃ r, c.rawType = some r ∧ IsWord r ∧ c.type = typeNamed enums r ∧
    c.settings.enumValues = valuesNamed enums r
  sized : c.settings.Sized
  default : ∀ v ∈ c.settings.default, v.Real

structure Index.Canonical (i : Index) : Prop where
  columns_ne : i.columns ≠ []
  columns : ∀ c ∈ i.columns, IsWord c

structure Table.Canonical (enums : List Enumeration) (t : Table) : Prop where
  name : IsWord t.name
  schema : ∀ s ∈ t.schema, IsWord s
  shortName : ∀ a ∈ t.shortName, IsWord a
  columns : ∀ c ∈ t.columns, c.Canonical enums
  indexes : ∀ i ∈ t.indexes, i.Canonical

/-- A schema as a source declares it. -/
structure Schema.Canonical (s : Schema) : Prop where
  tables : ∀ t ∈ s.tables, t.Canonical s.enums
  relations : ∀ r ∈ s.relations, r.Named
  enums : ∀ e ∈ s.enums, IsWord e.name
  groups : ∀ g ∈ s.groups, g.Named
  name : s.name = none
  note : s.note = none

/-! ## Normal form -/

namespace ColumnSettings

/-- Precision and scale if both are there, else the length. -/
def normalSize (s : ColumnSettings) : ColumnSettings :=
  match s.precision, s.scale with
  | some _, some _ => { s with length := none }
  | _, _ => { s with precision := none, scale := none }

end ColumnSettings

/-- The column that reads its type by name among some enumerations. -/
def Column.normalized (enums : List Enumeration) (c : Column) : Column :=
  { c with
    type := typeNamed enums c.displayType
    rawType := some c.displayType
    settings := { c.settings.normalSize with enumValues := valuesNamed enums c.displayType } }

def Table.normalized (enums : List Enumeration) (t : Table) : Table :=
  { t with
    columns := t.columns.map (Column.normalized enums)
    indexes := t.printedIndexes }

/-- The schema without what a source cannot say. -/
def Schema.normalized (s : Schema) : Schema :=
  { s with tables := s.tables.map (Table.normalized s.enums), name := none, note := none }

/-! ## Lemmas -/

theorem Column.Canonical.named {enums : List Enumeration} {c : Column} (h : c.Canonical enums) :
    c.Named := by
  obtain ⟨r, hr, hw, -, -⟩ := h.rawType
  exact ⟨h.name, by rw [displayType, hr]; exact hw⟩

theorem Table.Canonical.named {enums : List Enumeration} {t : Table} (h : t.Canonical enums) :
    t.Named :=
  ⟨h.name, h.schema, h.shortName, fun c hc => (h.columns c hc).named,
    fun i hi => (h.indexes i hi).columns⟩

theorem Schema.Canonical.named {s : Schema} (h : s.Canonical) : s.Named :=
  ⟨fun t ht => (h.tables t ht).named, h.relations, h.enums, h.groups⟩

theorem ColumnSettings.Sized.normalSize_eq {s : ColumnSettings} (h : s.Sized) : s.normalSize = s := by
  obtain ⟨_, _, _, _, _, _, length, precision, scale, _⟩ := s
  obtain ⟨ht, hl⟩ := h
  cases precision <;> cases scale <;> simp_all [normalSize]

theorem Column.Canonical.normalized_eq {enums : List Enumeration} {c : Column} (h : c.Canonical enums) :
    c.normalized enums = c := by
  obtain ⟨r, hr, -, ht, hv⟩ := h.rawType
  have hd : c.displayType = r := by rw [displayType, hr]; rfl
  unfold normalized
  rw [hd, h.sized.normalSize_eq, ← hr, ← ht, ← hv]

theorem Table.Canonical.normalized_eq {enums : List Enumeration} {t : Table} (h : t.Canonical enums) :
    t.normalized enums = t := by
  have hc : t.columns.map (Column.normalized enums) = t.columns := by
    rw [List.map_congr_left fun c hc => (h.columns c hc).normalized_eq, List.map_id']
  have hi : t.printedIndexes = t.indexes := by
    refine List.filter_eq_self.2 fun i hi => ?_
    simpa using (h.indexes i hi).columns_ne
  unfold normalized
  rw [hc, hi]

theorem Schema.Canonical.normalized_eq {s : Schema} (h : s.Canonical) : s.normalized = s := by
  have ht : s.tables.map (Table.normalized s.enums) = s.tables := by
    rw [List.map_congr_left fun t ht => (h.tables t ht).normalized_eq, List.map_id']
  have hn := h.name
  have hm := h.note
  unfold normalized
  rw [ht]
  cases s
  simp_all

end Erd
