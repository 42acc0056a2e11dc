import Mathlib.Data.List.Induction
import Erd.Proofs.Schema.Validity

/-!
# What a report holds

The report on a schema is the list of its faults in a fixed order, each with its severity and place.  `expected` says
for every rule on its own which faults there are: by what stands in front of a name, and by what the tables of the
schema are called and hold.  The checks find these and no others.

    repeated (xs.map name) = (latecomers name xs).map name                                    (repeated_map)
    s.columnsOf? name = none ↔ ¬ s.HasTable name                                        (columnsOf_eq_none)
    s.Holds e ↔ s.HasColumn e                                                            (holds_iff_hasColumn)
    s.check.diagnostics = s.expected                                                          (check_exact)
-/

namespace Erd

/-! ## What is expected -/

/-- The elements in front of which one of the same name stands. -/
def latecomers {ι : Type} (name : ι → String) (xs : List ι) : List ι :=
  (xs.zipIdx.filter fun p : ι × Nat => ∃ y ∈ xs.take p.2, name y = name p.1).map (·.1)

namespace Diagnostic

def error (message table : String) (column : Option String) : Diagnostic :=
  ⟨.error, message, some ⟨some table, column⟩⟩

def warning (message table : String) (column : Option String) : Diagnostic :=
  ⟨.warning, message, some ⟨some table, column⟩⟩

end Diagnostic

/-- What is expected of one table among enumerations: columns with an earlier namesake, the lack of a primary key, and
columns whose enumeration is not declared. -/
def Table.expected (enums : List Enumeration) (t : Table) : List Diagnostic :=
  ((latecomers (·.name) t.columns).map fun c =>
    .error ("Duplicate column name \"" ++ c.name ++ "\" in table \"" ++ t.name ++ "\"") t.name c.name) ++
  (if ∃ c ∈ t.columns, c.settings.primaryKey = true then []
    else [.warning ("Table \"" ++ t.name ++ "\" has no primary key") t.name none]) ++
  (t.columns.filter fun c =>
    c.type = .enum ∧ c.settings.enumValues = none ∧ ∀ e ∈ enums, e.name ≠ c.displayType).map fun c =>
    .warning ("Column \"" ++ (t.name ++ "." ++ c.name) ++ "\" references undefined enum \"" ++ c.displayType ++ "\"")
      t.name c.name

namespace Schema

/-- Some table has the name. -/
def HasTable (s : Schema) (name : String) : Prop := ∃ t ∈ s.tables, t.name = name

/-- Some table of the endpoint's name has its column. -/
def HasColumn (s : Schema) (e : Endpoint) : Prop :=
  ∃ t ∈ s.tables, t.name = e.table ∧ ∃ c ∈ t.columns, c.name = e.column

instance (s : Schema) (name : String) : Decidable (s.HasTable name) :=
  inferInstanceAs (Decidable (∃ t ∈ s.tables, t.name = name))

instance (s : Schema) (e : Endpoint) : Decidable (s.HasColumn e) :=
  inferInstanceAs (Decidable (∃ t ∈ s.tables, t.name = e.table ∧ ∃ c ∈ t.columns, c.name = e.column))

def expectedAt (s : Schema) (e : Endpoint) : List Diagnostic :=
  if ¬ s.HasTable e.table then [.error ("Relation references non-existent table: " ++ e.table) e.table none]
  else if ¬ s.HasColumn e then
    [.error ("Relation references non-existent column: " ++ (e.table ++ "." ++ e.column)) e.table e.column]
  else []

/-- Tables with an earlier namesake, then the faults of each table, of the ends of each relation and of the members of
each group. -/
def expected (s : Schema) : List Diagnostic :=
  ((latecomers (·.name) s.tables).map fun t => .error ("Duplicate table name: " ++ t.name) t.name none) ++
  s.tables.flatMap (Table.expected s.enums) ++
  s.relations.flatMap (fun r => s.expectedAt r.source ++ s.expectedAt r.target) ++
  s.groups.flatMap fun g => (g.tables.filter fun name => ¬ s.HasTable name).map fun name =>
    .warning ("Table group \"" ++ g.name ++ "\" references non-existent table: " ++ name) name none

end Schema

/-! ## Namesakes -/

theorem repeatedAfter_concat (seen xs : List String) (x : String) :
    repeatedAfter seen (xs ++ [x]) = repeatedAfter seen xs ++ if x ∈ seen ∨ x ∈ xs then [x] else [] := by
  induction xs generalizing seen with
  | nil => simp [repeatedAfter]
  | cons y ys ih =>
    rw [List.cons_append]
    unfold repeatedAfter
    split
    · next hy =>
      have hy : y ∈ seen := List.contains_iff_mem.1 hy
      have hiff : x ∈ seen ∨ x ∈ y :: ys ↔ x ∈ seen ∨ x ∈ ys := by
        rw [List.mem_cons]
        constructor
        · rintro (h | rfl | h)
          · exact Or.inl h
          · exact Or.inl hy
          · exact Or.inr h
        · exact Or.imp_right Or.inr
      rw [ih, List.cons_append]
      simp only [hiff]
    · have hiff : x ∈ y :: seen ∨ x ∈ ys ↔ x ∈ seen ∨ x ∈ y :: ys := by
        simp only [List.mem_cons, or_assoc, or_left_comm]
      rw [ih]
      simp only [hiff]

theorem latecomers_concat {ι : Type} (name : ι → String) (xs : List ι) (x : ι) :
    latecomers name (xs ++ [x]) = latecomers name xs ++ if ∃ y ∈ xs, name y = name x then [x] else [] := by
  have hfront : xs.zipIdx.filter (fun p : ι × Nat => ∃ y ∈ (xs ++ [x]).take p.2, name y = name p.1) =
      xs.zipIdx.filter fun p : ι × Nat => ∃ y ∈ xs.take p.2, name y = name p.1 := by
    refine List.filter_congr fun p hp => ?_
    have hlt : p.2 < xs.length := by simpa using List.snd_lt_of_mem_zipIdx hp
    rw [List.take_append_of_le_length (Nat.le_of_lt hlt)]
  have hlast : [x].zipIdx xs.length = [(x, xs.length)] := rfl
  unfold latecomers
  rw [List.zipIdx_append, List.filter_append, hfront, List.map_append, Nat.zero_add, hlast]
  congr 1
  by_cases h : ∃ y ∈ xs, name y = name x
  · simp [h]
  · simp [h]

/-- Names come up again where elements have earlier namesakes. -/
theorem repeated_map {ι : Type} (name : ι → String) (xs : List ι) :
    repeated (xs.map name) = (latecomers name xs).map name := by
  induction xs using List.reverseRecOn with
  | nil => rfl
  | append_singleton xs x ih =>
    have hiff : name x ∈ [] ∨ name x ∈ xs.map name ↔ ∃ y ∈ xs, name y = name x := by simp
    unfold repeated at ih ⊢
    rw [latecomers_concat, List.map_append, List.map_append, ← ih, List.map_singleton, repeatedAfter_concat]
    simp only [hiff]
    split <;> rfl

/-! ## Tables and columns by name -/

namespace Schema

variable {s : Schema}

theorem columnsOf_eq_none {name : String} : s.columnsOf? name = none ↔ ¬ s.HasTable name := by
  have hnil : s.tables.filter (·.name == name) = [] ↔ ¬ s.HasTable name := by
    simp [HasTable]
  rw [← hnil]
  unfold columnsOf?
  split
  · next h => simp [h]
  · next h => simpa using h

theorem holds_iff_hasColumn {e : Endpoint} : s.Holds e ↔ s.HasColumn e := by
  have hmem : s.HasColumn e ↔
      e.column ∈ (s.tables.filter (·.name == e.table)).flatMap fun t => t.columns.map (·.name) := by
    simp [HasColumn, and_assoc]
  rw [hmem]
  unfold Holds columnsOf?
  split
  · next h => simp [h]
  · simp

end Schema

/-! ## Reports -/

theorem Column.lacksEnum_iff {enums : List Enumeration} {c : Column} : c.lacksEnum (enums.map (·.name)) = true ↔
    c.type = .enum ∧ c.settings.enumValues = none ∧ ∀ e ∈ enums, e.name ≠ c.displayType := by
  simp [lacksEnum, and_assoc]

theorem Table.hasPrimaryKey_iff {t : Table} : t.hasPrimaryKey = true ↔ ∃ c ∈ t.columns, c.settings.primaryKey = true :=
  List.any_eq_true

theorem Table.diagnostics_eq (enums : List Enumeration) (t : Table) :
    (t.findings (enums.map (·.name))).map Finding.diagnostic = t.expected enums := by
  have hkey : (if t.hasPrimaryKey then [] else [Finding.noPrimaryKey t.name]).map Finding.diagnostic =
      if ∃ c ∈ t.columns, c.settings.primaryKey = true then []
      else [.warning ("Table \"" ++ t.name ++ "\" has no primary key") t.name none] := by
    simp only [hasPrimaryKey_iff]
    split <;> rfl
  have hlacks : t.columns.filter (·.lacksEnum (enums.map (·.name))) = t.columns.filter fun c =>
      c.type = .enum ∧ c.settings.enumValues = none ∧ ∀ e ∈ enums, e.name ≠ c.displayType := by
    refine List.filter_congr fun c _ => ?_
    rw [Bool.eq_iff_iff, decide_eq_true_iff]
    exact Column.lacksEnum_iff
  unfold findings expected
  rw [List.map_append, List.map_append, repeated_map, hkey, hlacks, List.map_map, List.map_map, List.map_map]
  rfl

namespace Schema

theorem diagnostics_endpoint (s : Schema) (e : Endpoint) :
    (s.endpointFindings e).map Finding.diagnostic = s.expectedAt e := by
  unfold endpointFindings expectedAt
  by_cases htable : s.HasTable e.table
  · obtain ⟨columns, hcolumns⟩ := Option.ne_none_iff_exists'.1 (mt columnsOf_eq_none.1 (not_not.2 htable))
    have hmem : columns.contains e.column = true ↔ s.HasColumn e := by
      rw [← holds_iff_hasColumn, List.contains_iff_mem, Holds, hcolumns]
      simp
    rw [if_neg (not_not.2 htable), hcolumns]
    dsimp only
    by_cases hcolumn : s.HasColumn e
    · rw [if_pos (hmem.2 hcolumn), if_neg (not_not.2 hcolumn)]
      rfl
    · rw [if_neg (mt hmem.1 hcolumn), if_pos hcolumn]
      rfl
  · rw [if_pos htable, columnsOf_eq_none.2 htable]
    rfl

theorem diagnostics_group (s : Schema) (g : TableGroup) : (s.groupFindings g).map Finding.diagnostic =
    (g.tables.filter fun name => ¬ s.HasTable name).map fun name =>
      .warning ("Table group \"" ++ g.name ++ "\" references non-existent table: " ++ name) name none := by
  have hmissing : g.tables.filter (fun name => (s.columnsOf? name).isNone) =
      g.tables.filter fun name => ¬ s.HasTable name := by
    refine List.filter_congr fun name _ => ?_
    rw [Bool.eq_iff_iff, decide_eq_true_iff, Option.isNone_iff_eq_none]
    exact columnsOf_eq_none
  unfold groupFindings
  rw [hmissing, List.map_map]
  rfl

/-- The report is what is expected, and without errors exactly if tables and the columns of each have different names
and both ends of every relation are there. -/
theorem check_exact (s : Schema) : s.check.diagnostics = s.expected ∧
    (s.check.valid = true ↔ (s.tables.map (·.name)).Nodup ∧ (∀ t ∈ s.tables, (t.columns.map (·.name)).Nodup) ∧
      ∀ r ∈ s.relations, s.HasColumn r.source ∧ s.HasColumn r.target) := by
  have hrelation (r : Relation) :
      (s.relationFindings r).map Finding.diagnostic = s.expectedAt r.source ++ s.expectedAt r.target := by
    rw [relationFindings, List.map_append, diagnostics_endpoint, diagnostics_endpoint]
  constructor
  · show s.findings.map Finding.diagnostic = s.expected
    unfold findings expected
    rw [List.map_append, List.map_append, List.map_append, List.map_flatMap, List.map_flatMap, List.map_flatMap,
      repeated_map, List.map_map, List.map_map]
    simp only [Table.diagnostics_eq, hrelation, diagnostics_group]
    rfl
  · have hvalid : s.check.valid = true ↔ s.isValid = true := Iff.rfl
    simp only [hvalid, isValid_iff, holds_iff_hasColumn]

end Schema

end Erd
