import Mathlib.Data.List.Nodup
import Erd.Schema.Check

/-!
# Valid schemas

A schema without errors is one whose names tell its tables apart, and the columns of each table, and whose
relations end at columns of its tables.

    repeated names = [] ↔ names.Nodup                                          (repeated_eq_nil)
    s.Holds e ↔ s.endpointFindings e is empty                         (endpointFindings_eq_nil)
    s.isValid ↔ tables and columns are distinct and relations hold               (isValid_iff)
-/

namespace Erd

/-! ## Names that come up again -/

theorem repeatedAfter_eq_nil {seen names : List String} :
    repeatedAfter seen names = [] ↔ names.Nodup ∧ ∀ x ∈ names, x ∉ seen := by
  induction names generalizing seen with
  | nil => simp [repeatedAfter]
  | cons x xs ih =>
    unfold repeatedAfter
    by_cases hx : x ∈ seen
    · rw [if_pos (List.contains_iff_mem.2 hx)]
      constructor
      · intro h
        cases h
      · rintro ⟨-, h⟩
        exact absurd hx (h x List.mem_cons_self)
    · rw [if_neg (mt List.contains_iff_mem.1 hx), ih, List.nodup_cons]
      constructor
      · rintro ⟨hnodup, h⟩
        refine ⟨⟨fun hmem => h x hmem List.mem_cons_self, hnodup⟩, ?_⟩
        intro y hy
        rcases List.mem_cons.1 hy with rfl | hy
        · exact hx
        · exact fun hseen => h y hy (List.mem_cons_of_mem x hseen)
      · rintro ⟨⟨hne, hnodup⟩, h⟩
        refine ⟨hnodup, fun y hy hmem => ?_⟩
        rcases List.mem_cons.1 hmem with rfl | hmem
        · exact hne hy
        · exact h y (List.mem_cons_of_mem x hy) hmem

/-- No name comes up again exactly if all names are different. -/
theorem repeated_eq_nil {names : List String} : repeated names = [] ↔ names.Nodup := by
  unfold repeated
  rw [repeatedAfter_eq_nil]
  simp

/-! ## Errors of each part -/

/-- No finding is an error. -/
def Clean (fs : List Finding) : Prop := ∀ f ∈ fs, f.isError = false

theorem clean_append {fs gs : List Finding} : Clean (fs ++ gs) ↔ Clean fs ∧ Clean gs :=
  List.forall_mem_append

theorem clean_flatMap {ι : Type} {xs : List ι} {g : ι → List Finding} :
    Clean (xs.flatMap g) ↔ ∀ x ∈ xs, Clean (g x) := by
  unfold Clean
  simp only [List.mem_flatMap]
  constructor
  · intro h x hx f hf
    exact h f ⟨x, hx, hf⟩
  · rintro h f ⟨x, hx, hf⟩
    exact h x hx f hf

theorem clean_map_error {ι : Type} {xs : List ι} {g : ι → Finding} (h : ∀ x, (g x).isError = true) :
    Clean (xs.map g) ↔ xs = [] := by
  cases xs with
  | nil => simp [Clean]
  | cons x xs => simp [Clean, h x]

theorem clean_map_warning {ι : Type} {xs : List ι} {g : ι → Finding} (h : ∀ x, (g x).isError = false) :
    Clean (xs.map g) := by
  intro f hf
  obtain ⟨x, -, rfl⟩ := List.mem_map.1 hf
  exact h x

/-- A table has an error exactly if two of its columns have one name. -/
theorem Table.clean_findings {enums : List String} {t : Table} :
    Clean (t.findings enums) ↔ (t.columns.map (·.name)).Nodup := by
  have hkey : Clean (if t.hasPrimaryKey then [] else [.noPrimaryKey t.name]) := by
    split
    · exact nofun
    · intro f hf
      rw [List.mem_singleton.1 hf]
      rfl
  unfold findings
  rw [clean_append, clean_append, clean_map_error (fun _ => rfl), repeated_eq_nil]
  constructor
  · rintro ⟨⟨h, -⟩, -⟩
    exact h
  · intro h
    exact ⟨⟨h, hkey⟩, clean_map_warning fun _ => rfl⟩

namespace Schema

/-- The column that an endpoint names is a column of a table of its name. -/
def Holds (s : Schema) (e : Endpoint) : Prop := ∃ columns, s.columnsOf? e.table = some columns ∧ e.column ∈ columns

theorem clean_endpointFindings {s : Schema} {e : Endpoint} : Clean (s.endpointFindings e) ↔ s.Holds e := by
  unfold endpointFindings Holds
  cases hcolumns : s.columnsOf? e.table with
  | none =>
    constructor
    · intro h
      exact absurd (show true = false from h _ List.mem_cons_self) nofun
    · rintro ⟨_, h, -⟩
      cases h
  | some columns =>
    dsimp only
    by_cases hmem : e.column ∈ columns
    · rw [if_pos (List.contains_iff_mem.2 hmem)]
      exact ⟨fun _ => ⟨columns, rfl, hmem⟩, fun _ => nofun⟩
    · rw [if_neg (mt List.contains_iff_mem.1 hmem)]
      constructor
      · intro h
        exact absurd (show true = false from h _ List.mem_cons_self) nofun
      · rintro ⟨_, h, hmem'⟩
        cases h
        exact absurd hmem' hmem

/-- A schema is valid exactly if its tables have different names, so have the columns of each table, and both
ends of every relation name a column of a table. -/
theorem isValid_iff {s : Schema} : s.isValid = true ↔
    (s.tables.map (·.name)).Nodup ∧ (∀ t ∈ s.tables, (t.columns.map (·.name)).Nodup) ∧
      ∀ r ∈ s.relations, s.Holds r.source ∧ s.Holds r.target := by
  have hclean : s.isValid = true ↔ Clean s.findings := by
    simp [isValid, Clean]
  have hrelation (r : Relation) : Clean (s.relationFindings r) ↔ s.Holds r.source ∧ s.Holds r.target := by
    unfold relationFindings
    rw [clean_append, clean_endpointFindings, clean_endpointFindings]
  have hgroups : ∀ g ∈ s.groups, Clean (s.groupFindings g) := fun g _ => clean_map_warning fun _ => rfl
  rw [hclean]
  unfold findings
  rw [clean_append, clean_append, clean_append, clean_map_error (fun _ => rfl), repeated_eq_nil,
    clean_flatMap, clean_flatMap, clean_flatMap]
  simp only [Table.clean_findings, hrelation]
  constructor
  · rintro ⟨⟨⟨htables, hcolumns⟩, hrelations⟩, -⟩
    exact ⟨htables, hcolumns, hrelations⟩
  · rintro ⟨htables, hcolumns, hrelations⟩
    exact ⟨⟨⟨htables, hcolumns⟩, hrelations⟩, hgroups⟩

end Schema

end Erd
