import Mathlib.Data.List.Count
import Erd.Diagram.OfSchema
import Erd.Proofs.Schema.Validity

/-!
# Diagrams without loose ends

A diagram is linked if its ids tell boxes apart, and the rows of each box, and every edge ends at one row.
The diagram of a schema is linked exactly if the schema is valid.

    columnPath t c = columnPath t c' ↔ c = c'                                 (columnPath_inj)
    (s.toDiagram m).node? id = (s.table? id).map …                           (node_toDiagram)
    s.check.valid = true ↔ (s.toDiagram m).Linked                       (check_valid_iff_linked)
-/

namespace Erd

variable {α : Type}

/-! ## Definitions -/

namespace Diagram

/-- The end names a box and exactly one of its rows. -/
def Joins (d : Diagram α) (x : EdgeEnd) : Prop :=
  ∃ n, d.node? x.node = some n ∧ n.columns.countP (·.id == x.column) = 1

structure Linked (d : Diagram α) : Prop where
  nodes : (d.nodes.map (·.id)).Nodup
  rows : ∀ n ∈ d.nodes, (n.columns.map (·.id)).Nodup
  edges : ∀ e ∈ d.edges, d.Joins e.source ∧ d.Joins e.target

end Diagram

/-! ## Paths of columns -/

/-- Within a table the path tells columns apart, whatever dots the names hold. -/
theorem columnPath_inj {table c c' : String} : columnPath table c = columnPath table c' ↔ c = c' := by
  constructor
  · intro h
    have hl := congrArg String.toList h
    simp only [columnPath, String.toList_append] at hl
    exact String.toList_inj.1 (List.append_cancel_left hl)
  · rintro rfl
    rfl

/-! ## Boxes of tables -/

variable [Scalar α] (m : Metrics α)

theorem TableBox.columns_ofTable (fks : List String) (group : Option String) (t : Table) :
    (ofTable m fks group t).columns.map (·.id) = (t.columns.map (·.name)).map (columnPath t.name) := by
  have hrows : (ofTable m fks group t).columns.map (·.id) =
      t.columns.zipIdx.map ((columnPath t.name) ∘ (·.name) ∘ Prod.fst) := by
    unfold ofTable
    rw [List.map_map]
    rfl
  rw [hrows, List.map_map, ← List.map_map, ← List.map_map, List.zipIdx_map_fst, List.map_map]

namespace Schema

variable (s : Schema)

theorem ids_toDiagram : (s.toDiagram m).nodes.map (·.id) = s.tables.map (·.name) := by
  unfold toDiagram
  rw [List.map_map]
  rfl

theorem node_toDiagram (id : String) : (s.toDiagram m).node? id =
    (s.table? id).map fun t => .ofTable m (s.relations.map (·.source.path)) (s.groupOf? t.name) t := by
  unfold toDiagram Diagram.node? table?
  rw [List.find?_map]
  rfl

/-- Among things of different names, those of one name are the first of it. -/
theorem filter_eq_toList_find {ι : Type} {f : ι → String} {xs : List ι} (h : (xs.map f).Nodup) (x : String) :
    xs.filter (f · == x) = (xs.find? (f · == x)).toList := by
  induction xs with
  | nil => rfl
  | cons y ys ih =>
    rw [List.map_cons, List.nodup_cons] at h
    obtain ⟨hy, hys⟩ := h
    by_cases hyx : f y = x
    · have hrest : ys.filter (f · == x) = [] := by
        rw [List.filter_eq_nil_iff]
        intro z hz hzx
        exact hy (hyx ▸ beq_iff_eq.1 hzx ▸ List.mem_map_of_mem hz)
      simp [hyx, hrest]
    · simp [hyx, ih hys]

/-- Among tables of different names, an endpoint is looked for in one table. -/
theorem holds_iff {s : Schema} (h : (s.tables.map (·.name)).Nodup) (e : Endpoint) :
    s.Holds e ↔ ∃ t, s.table? e.table = some t ∧ e.column ∈ t.columns.map (·.name) := by
  unfold Holds columnsOf?
  rw [filter_eq_toList_find h]
  unfold table?
  cases s.tables.find? (·.name == e.table) with
  | none => simp
  | some t => simp

/-- An edge ends at one row of one box exactly if the table that its endpoint names has the column. -/
theorem joins_iff {s : Schema} (h : ∀ t ∈ s.tables, (t.columns.map (·.name)).Nodup) (e : Endpoint) :
    (s.toDiagram m).Joins (.ofEndpoint e) ↔ ∃ t, s.table? e.table = some t ∧ e.column ∈ t.columns.map (·.name) := by
  unfold Diagram.Joins EdgeEnd.ofEndpoint
  rw [node_toDiagram]
  cases ht : s.table? e.table with
  | none => simp
  | some t =>
    have hname : t.name = e.table := by simpa using List.find?_some ht
    have hnodup := h t (List.mem_of_find?_eq_some ht)
    have hcount : ((TableBox.ofTable m (s.relations.map (·.source.path)) (s.groupOf? t.name) t).columns.countP
        (·.id == e.path)) = (t.columns.map (·.name)).count e.column := by
      have hids := TableBox.columns_ofTable m (s.relations.map (·.source.path)) (s.groupOf? t.name) t
      have hinj : Function.Injective (columnPath t.name) := fun _ _ => columnPath_inj.1
      rw [← List.count_map_of_injective _ _ hinj, ← hids, List.count_eq_countP, List.countP_map, hname]
      rfl
    simp only [Option.map_some, Option.some.injEq, exists_eq_left', hcount]
    exact ⟨fun hc => List.count_pos_iff.1 (by omega), List.count_eq_one_of_mem hnodup⟩

/-- Both sides draw the same line: the checks accept a schema exactly if its diagram is linked. -/
theorem check_valid_iff_linked : s.check.valid = true ↔ (s.toDiagram m).Linked := by
  have hrows : (∀ n ∈ (s.toDiagram m).nodes, (n.columns.map (·.id)).Nodup) ↔
      ∀ t ∈ s.tables, (t.columns.map (·.name)).Nodup := by
    have hinj (table : String) : Function.Injective (columnPath table) := fun _ _ => columnPath_inj.1
    simp only [toDiagram, List.forall_mem_map, TableBox.columns_ofTable, List.nodup_map_iff (hinj _)]
  have hedges (P : EdgeEnd → Prop) : (∀ e ∈ (s.toDiagram m).edges, P e.source ∧ P e.target) ↔
      ∀ r ∈ s.relations, P (.ofEndpoint r.source) ∧ P (.ofEndpoint r.target) := by
    simp only [toDiagram, List.forall_mem_map]
    rfl
  have hvalid : s.check.valid = true ↔ s.isValid = true := Iff.rfl
  rw [hvalid, isValid_iff]
  constructor
  · rintro ⟨htables, hcolumns, hrelations⟩
    refine ⟨by rwa [ids_toDiagram], hrows.2 hcolumns, (hedges _).2 fun r hr => ?_⟩
    obtain ⟨hsource, htarget⟩ := hrelations r hr
    rw [joins_iff m hcolumns, joins_iff m hcolumns]
    exact ⟨(holds_iff htables _).1 hsource, (holds_iff htables _).1 htarget⟩
  · rintro ⟨hnodes, hcolumns, hjoins⟩
    rw [ids_toDiagram] at hnodes
    rw [hrows] at hcolumns
    refine ⟨hnodes, hcolumns, fun r hr => ?_⟩
    obtain ⟨hsource, htarget⟩ := (hedges _).1 hjoins r hr
    rw [joins_iff m hcolumns] at hsource htarget
    exact ⟨(holds_iff hnodes _).2 hsource, (holds_iff hnodes _).2 htarget⟩

end Schema

end Erd
