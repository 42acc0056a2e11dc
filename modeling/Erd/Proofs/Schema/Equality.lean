import Erd.Proofs.Schema.Canonical

/-!
# Equality of schemas

`==` compares numeric defaults by value, so a schema equals itself unless a default is a NaN.  Two schemas
that are equal have equal defaults at the same places.

    x.isNaN = false → (x == x) = true                                           (Binary64.beq_self)
    (∀ t ∈ s.tables, t.Real) → (s == s) = true                                   (Schema.beq_self)
    (xs.map f == xs) = true → ∀ x ∈ xs, (f x == x) = true                        (beq_of_map_beq)
-/

namespace Erd

/-! ## Lists and options -/

theorem list_beq_self {α : Type} [BEq α] {xs : List α} (h : ∀ x ∈ xs, (x == x) = true) :
    (xs == xs) = true := by
  induction xs with
  | nil => rfl
  | cons x xs ih =>
    rw [List.cons_beq_cons, h x List.mem_cons_self, ih fun y hy => h y (List.mem_cons_of_mem x hy)]
    rfl

theorem option_beq_self {α : Type} [BEq α] {o : Option α} (h : ∀ x ∈ o, (x == x) = true) :
    (o == o) = true := by
  cases o with
  | none => rfl
  | some x => exact h x rfl

theorem beq_of_map_beq {α : Type} [BEq α] {f : α → α} {xs : List α} (h : (xs.map f == xs) = true) :
    ∀ x ∈ xs, (f x == x) = true := by
  induction xs with
  | nil => nofun
  | cons x xs ih =>
    rw [List.map_cons, List.cons_beq_cons, Bool.and_eq_true] at h
    intro y hy
    rcases List.mem_cons.1 hy with rfl | hy
    · exact h.1
    · exact ih h.2 y hy

/-! ## Defaults -/

theorem Binary64.beq_self {x : Binary64} (h : x.isNaN = false) : (x == x) = true := by
  show x.sameValue x = true
  simp [sameValue, h]

theorem DefaultValue.beq_self {v : DefaultValue} (h : v.Real) : (v == v) = true := by
  cases v with
  | boolean b => exact beq_self_eq_true b
  | number x => exact Binary64.beq_self (h x rfl)
  | string s => exact beq_self_eq_true s
  | null => rfl

/-! ## Columns -/

theorem ColumnSettings.beq_eq (a b : ColumnSettings) : (a == b) =
    (a.primaryKey == b.primaryKey && (a.unique == b.unique && (a.notNull == b.notNull &&
      (a.autoIncrement == b.autoIncrement && (a.default == b.default && (a.note == b.note &&
        (a.length == b.length && (a.precision == b.precision &&
          (a.scale == b.scale && a.enumValues == b.enumValues))))))))) := rfl

theorem Column.beq_eq (a b : Column) : (a == b) =
    (a.name == b.name && (a.type == b.type && (a.rawType == b.rawType && a.settings == b.settings))) := rfl

/-- A numeric default is no NaN. -/
def Column.Real (c : Column) : Prop := ∀ v ∈ c.settings.default, v.Real

theorem Column.beq_self {c : Column} (h : c.Real) : (c == c) = true := by
  have hd : (c.settings.default == c.settings.default) = true :=
    option_beq_self fun v hv => DefaultValue.beq_self (h v hv)
  have hs : (c.settings == c.settings) = true := by
    rw [ColumnSettings.beq_eq, hd]
    simp
  rw [Column.beq_eq, hs]
  simp

theorem Column.default_of_beq {a b : Column} (h : (a == b) = true) :
    (a.settings.default == b.settings.default) = true := by
  rw [Column.beq_eq] at h
  simp only [Bool.and_eq_true] at h
  have hs := h.2.2.2
  rw [ColumnSettings.beq_eq] at hs
  simp only [Bool.and_eq_true] at hs
  exact hs.2.2.2.2.1

/-! ## Tables and schemas -/

theorem Index.beq_self (i : Index) : (i == i) = true := by
  have h : (i == i) =
      (i.name == i.name && (i.columns == i.columns && (i.unique == i.unique && i.type == i.type))) := rfl
  rw [h]
  simp

theorem Table.beq_eq (a b : Table) : (a == b) =
    (a.name == b.name && (a.schema == b.schema && (a.shortName == b.shortName &&
      (a.columns == b.columns && (a.indexes == b.indexes && a.note == b.note))))) := rfl

def Table.Real (t : Table) : Prop := ∀ c ∈ t.columns, c.Real

theorem Table.beq_self {t : Table} (h : t.Real) : (t == t) = true := by
  have hc : (t.columns == t.columns) = true := list_beq_self fun c hc => Column.beq_self (h c hc)
  have hi : (t.indexes == t.indexes) = true := list_beq_self fun i _ => i.beq_self
  rw [Table.beq_eq, hc, hi]
  simp

theorem Table.columns_of_beq {a b : Table} (h : (a == b) = true) : (a.columns == b.columns) = true := by
  rw [Table.beq_eq] at h
  simp only [Bool.and_eq_true] at h
  exact h.2.2.2.1

theorem Schema.beq_eq (a b : Schema) : (a == b) =
    (a.tables == b.tables && (a.relations == b.relations && (a.enums == b.enums &&
      (a.groups == b.groups && (a.name == b.name && a.note == b.note))))) := rfl

theorem Schema.beq_self {s : Schema} (h : ∀ t ∈ s.tables, t.Real) : (s == s) = true := by
  have ht : (s.tables == s.tables) = true := list_beq_self fun t ht => Table.beq_self (h t ht)
  rw [Schema.beq_eq, ht]
  simp

theorem Schema.tables_of_beq {a b : Schema} (h : (a == b) = true) : (a.tables == b.tables) = true := by
  rw [Schema.beq_eq] at h
  simp only [Bool.and_eq_true] at h
  exact h.1

theorem Schema.Canonical.real {s : Schema} (h : s.Canonical) : ∀ t ∈ s.tables, t.Real :=
  fun t ht c hc => ((h.tables t ht).columns c hc).default

end Erd
