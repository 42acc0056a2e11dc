import Mathlib.Data.List.Forall2
import Erd.Diagram.OfSchema
import Erd.Schema.Check
import Erd.Proofs.Grammar.Image

/-!
# Foreign keys of a diagram

A row is marked as a foreign key if its path is the path of a referencing column.  Where names hold dots a path does
not tell where the name of the table ends, and then a column is marked that no relation starts at.  A source cannot
declare such names, so the marks of all that it declares are exact.

    e.path = f.path ↔ e.Alike f                                                                   (path_eq_path)
    (s.toDiagram m).Marks s.tables P ↔ the columns in `P` are those that a referencing one is like
                                                                                              (marks_toDiagram)
    (s.toDiagram m).Marks s.tables s.Refers ↔ s.Separated                                          (marks_exact)
-/

namespace Erd

/-! ## Definitions -/

/-- Endpoints with one path: between the same names, or divided at different dots of one text. -/
inductive Endpoint.Alike : Endpoint → Endpoint → Prop where
  | same (e : Endpoint) : Alike e e
  | longerTable (table part column : String) :
      Alike ⟨columnPath table part, column⟩ ⟨table, columnPath part column⟩
  | longerColumn (table part column : String) :
      Alike ⟨table, columnPath part column⟩ ⟨columnPath table part, column⟩

namespace Schema

/-- Some relation starts at the endpoint. -/
def Refers (s : Schema) (e : Endpoint) : Prop := ∃ r ∈ s.relations, r.source = e

/-- A column is like a referencing one only if it is referencing itself. -/
def Separated (s : Schema) : Prop :=
  ∀ t ∈ s.tables, ∀ c ∈ t.columns, ∀ r ∈ s.relations, r.source.Alike ⟨t.name, c.name⟩ → s.Refers ⟨t.name, c.name⟩

end Schema

/-- The boxes are those of the tables and their rows those of the columns, in order, and the rows marked as foreign
keys are those of the columns in `P`. -/
def Diagram.Marks {α : Type} (d : Diagram α) (tables : List Table) (P : Endpoint → Prop) : Prop :=
  List.Forall₂ (fun t n => n.id = t.name ∧
    List.Forall₂ (fun c row => row.name = c.name ∧ (row.isForeignKey = true ↔ P ⟨t.name, c.name⟩))
      t.columns n.columns) tables d.nodes

/-! ## Paths -/

namespace Endpoint

theorem Alike.symm {e f : Endpoint} (h : e.Alike f) : f.Alike e := by
  cases h with
  | same => exact .same e
  | longerTable table part column => exact .longerColumn table part column
  | longerColumn table part column => exact .longerTable table part column

/-- The table of one endpoint is the beginning of the other's, which goes on at a dot. -/
theorem alike_of_append {table table' column column' : String} {part : List Char}
    (htable : table'.toList = table.toList ++ part)
    (hcolumn : '.' :: column.toList = part ++ '.' :: column'.toList) : Alike ⟨table, column⟩ ⟨table', column'⟩ := by
  rcases List.cons_eq_append_iff.1 hcolumn with ⟨rfl, hrest⟩ | ⟨part, rfl, hrest⟩
  · rw [List.append_nil] at htable
    obtain rfl := String.toList_inj.1 htable
    obtain rfl := String.toList_inj.1 (List.cons.inj hrest).2
    exact .same _
  · obtain rfl : table' = columnPath table (String.ofList part) :=
      String.toList_inj.1 (by simp [columnPath, htable])
    obtain rfl : column = columnPath (String.ofList part) column' :=
      String.toList_inj.1 (by simp [columnPath, hrest])
    exact .longerColumn _ _ _

/-- A path tells an endpoint up to the dot at which it is divided. -/
theorem path_eq_path {e f : Endpoint} : e.path = f.path ↔ e.Alike f := by
  constructor
  · intro h
    have hl : e.table.toList ++ '.' :: e.column.toList = f.table.toList ++ '.' :: f.column.toList := by
      simpa [path, columnPath] using congrArg String.toList h
    rcases List.append_eq_append_iff.1 hl with ⟨part, htable, hcolumn⟩ | ⟨part, htable, hcolumn⟩
    · exact alike_of_append htable hcolumn
    · exact (alike_of_append htable hcolumn).symm
  · rintro (_ | _ | _)
    · rfl
    · simp [path, columnPath, String.append_assoc]
    · simp [path, columnPath, String.append_assoc]

theorem dot_mem_columnPath (table column : String) : '.' ∈ (columnPath table column).toList := by
  simp [columnPath]

/-- Names of tables without dots leave one dot at which a path can be divided. -/
theorem Alike.eq {e f : Endpoint} (h : e.Alike f) (he : '.' ∉ e.table.toList) (hf : '.' ∉ f.table.toList) : e = f := by
  cases h with
  | same => rfl
  | longerTable => exact absurd (dot_mem_columnPath _ _) he
  | longerColumn => exact absurd (dot_mem_columnPath _ _) hf

theorem dot_notMem_of_isWord {w : String} (h : IsWord w) : '.' ∉ w.toList :=
  fun hdot => absurd (isWordChar_of_mem h hdot) (by decide)

end Endpoint

/-! ## Marks -/

/-- What is made of the elements and their numbers, next to the elements. -/
theorem forall₂_zipIdx {ι κ : Type} {R : ι → κ → Prop} {Q : ι → Prop} {f : ι × Nat → κ} {xs : List ι}
    (h : ∀ x i, R x (f (x, i)) ↔ Q x) : List.Forall₂ R xs (xs.zipIdx.map f) ↔ ∀ x ∈ xs, Q x := by
  calc List.Forall₂ R xs (xs.zipIdx.map f)
      ↔ List.Forall₂ R (xs.zipIdx.map Prod.fst) (xs.zipIdx.map f) := by rw [List.zipIdx_map_fst]
    _ ↔ ∀ p ∈ xs.zipIdx, R p.1 (f p) := by
        rw [List.forall₂_map_left_iff, List.forall₂_map_right_iff, List.forall₂_same]
    _ ↔ ∀ p ∈ xs.zipIdx, Q p.1 := forall₂_congr fun p _ => h p.1 p.2
    _ ↔ ∀ x ∈ xs.zipIdx.map Prod.fst, Q x := List.forall_mem_map.symm
    _ ↔ ∀ x ∈ xs, Q x := by rw [List.zipIdx_map_fst]

variable {α : Type} [Scalar α] (m : Metrics α)

theorem TableBox.isForeignKey_row (s : Schema) (table : String) (c : Column) (index : Nat) :
    (row m (s.relations.map (·.source.path)) table c index).isForeignKey = true ↔
      ∃ r ∈ s.relations, r.source.Alike ⟨table, c.name⟩ := by
  have hmem : (row m (s.relations.map (·.source.path)) table c index).isForeignKey = true ↔
      (⟨table, c.name⟩ : Endpoint).path ∈ s.relations.map (·.source.path) := List.contains_iff_mem
  simp only [hmem, List.mem_map, Endpoint.path_eq_path]

namespace Schema

variable (s : Schema)

theorem marks_toDiagram {P : Endpoint → Prop} : (s.toDiagram m).Marks s.tables P ↔
    ∀ t ∈ s.tables, ∀ c ∈ t.columns, (∃ r ∈ s.relations, r.source.Alike ⟨t.name, c.name⟩) ↔ P ⟨t.name, c.name⟩ := by
  have hrows (t : Table) : List.Forall₂
        (fun c row => row.name = c.name ∧ (row.isForeignKey = true ↔ P ⟨t.name, c.name⟩))
        t.columns (TableBox.ofTable m (s.relations.map (·.source.path)) (s.groupOf? t.name) t).columns ↔
      ∀ c ∈ t.columns, (∃ r ∈ s.relations, r.source.Alike ⟨t.name, c.name⟩) ↔ P ⟨t.name, c.name⟩ := by
    refine forall₂_zipIdx fun c i => ?_
    rw [TableBox.isForeignKey_row]
    exact and_iff_right rfl
  unfold Diagram.Marks toDiagram
  rw [List.forall₂_map_right_iff, List.forall₂_same]
  exact forall₂_congr fun t _ => (and_iff_right rfl).trans (hrows t)

/-- The rows marked as foreign keys are those of the columns whose path is the path of a referencing column.  They are
exactly the referencing columns if no other column is like one of them, so if no dot stands in the name of a table,
and for every schema that a source declares. -/
theorem marks_exact :
    (s.toDiagram m).Marks s.tables (fun e => ∃ r ∈ s.relations, r.source.Alike e) ∧
      ((s.toDiagram m).Marks s.tables s.Refers ↔ s.Separated) ∧
      ((∀ t ∈ s.tables, '.' ∉ t.name.toList) ∧ (∀ r ∈ s.relations, '.' ∉ r.source.table.toList) →
        (s.toDiagram m).Marks s.tables s.Refers) ∧
      ∀ source, parse source = .ok s → (s.toDiagram m).Marks s.tables s.Refers := by
  have hiff : (s.toDiagram m).Marks s.tables s.Refers ↔ s.Separated := by
    rw [marks_toDiagram]
    refine forall₂_congr fun t _ => forall₂_congr fun c _ => ?_
    constructor
    · intro h r hr halike
      exact h.1 ⟨r, hr, halike⟩
    · intro h
      refine ⟨fun ⟨r, hr, halike⟩ => h r hr halike, ?_⟩
      rintro ⟨r, hr, heq⟩
      exact ⟨r, hr, heq ▸ .same _⟩
  have hplain (htables : ∀ t ∈ s.tables, '.' ∉ t.name.toList)
      (hrelations : ∀ r ∈ s.relations, '.' ∉ r.source.table.toList) : s.Separated :=
    fun t ht _ _ r hr halike => ⟨r, hr, halike.eq (hrelations r hr) (htables t ht)⟩
  refine ⟨(marks_toDiagram m s).2 fun _ _ _ _ => Iff.rfl, hiff, fun h => hiff.2 (hplain h.1 h.2), fun source h => ?_⟩
  obtain ⟨_, hc⟩ := parse_eq_ok.1 h
  have hnamed := (canonical_of_document hc).named
  exact hiff.2 (hplain (fun t ht => Endpoint.dot_notMem_of_isWord (hnamed.tables t ht).name)
    fun r hr => Endpoint.dot_notMem_of_isWord (hnamed.relations r hr).source.table)

/-- Table `a.b` refers by its column `c` to the column `b.c` of table `a`, which has the same path. -/
def dotted : Schema :=
  { tables :=
      [{ name := "a", columns := [{ name := "b.c", type := .int }] },
       { name := "a.b", columns := [{ name := "c", type := .int }] }]
    relations := [{ source := ⟨"a.b", "c"⟩, target := ⟨"a", "b.c"⟩, type := .manyToOne }] }

example : dotted.isValid = true := by
  decide

example : (dotted.toDiagram m).nodes.map (fun n => n.columns.map (·.isForeignKey)) = [[true], [true]] := rfl

end Schema

end Erd
