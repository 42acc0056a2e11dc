import Erd.Diagram.Json
import Erd.Proofs.Schema.Encoding

/-!
# Diagrams written and read

A diagram whose coordinates are finite is read as it was written, but for defaults that JSON does not hold.

    d.Finite → Diagram.ofJson? d.toJson = some (d.mapDefaults DefaultValue.carried)          (ofJson?_toJson)
    schemas and diagrams with finite numbers lose their `null` defaults and nothing else          (encoding_roundTrip)
-/

namespace Erd

open Json

/-! ## Coordinates -/

theorem Coordinate.ofJson?_toJson {x : Binary64} (h : x.isFinite = true) :
    Coordinate.ofJson? (Coordinate.toJson x) = some x := by
  have hwrite : Coordinate.toJson x = .float x := if_pos h
  have hread : Coordinate.ofJson? (.float x) = (finite? x).map id := rfl
  rw [hwrite, hread, finite?, if_pos h]
  rfl

def Point.Finite (p : Point Binary64) : Prop := p.x.isFinite = true ∧ p.y.isFinite = true

def Size.Finite (s : Size Binary64) : Prop := s.width.isFinite = true ∧ s.height.isFinite = true

/-- The corner and the size are finite. -/
def Rect.Finite (r : Rect Binary64) : Prop := Point.Finite ⟨r.x, r.y⟩ ∧ Size.Finite ⟨r.width, r.height⟩

theorem Point.ofJson?_toJson {p : Point Binary64} (h : p.Finite) : ofJson? p.toJson = some p := by
  simp [ofJson?, toJson, Coordinate.ofJson?_toJson h.1, Coordinate.ofJson?_toJson h.2]

theorem Size.ofJson?_toJson {s : Size Binary64} (h : s.Finite) : ofJson? s.toJson = some s := by
  simp [ofJson?, toJson, Coordinate.ofJson?_toJson h.1, Coordinate.ofJson?_toJson h.2]

namespace Rect

theorem ofJson?_toJson {r : Rect Binary64} (h : r.Finite) : ofJson? r.toJson = some r := by
  simp [ofJson?, toJson, Coordinate.ofJson?_toJson h.1.1, Coordinate.ofJson?_toJson h.1.2,
    Coordinate.ofJson?_toJson h.2.1, Coordinate.ofJson?_toJson h.2.2]

theorem elim_rect {r : Option (Rect Binary64)} (h : ∀ s, r = some s → s.Finite) :
    r.elim (some none) (nullable ofJson? ∘ toJson) = some r := by
  have hread (s : Rect Binary64) (hs : r = some s) : nullable ofJson? s.toJson = some (some s) := by
    rw [nullable_eq (show s.toJson ≠ .null from nofun), ofJson?_toJson (h s hs)]
    rfl
  rw [elim_written hread, Option.bind_fun_some]

end Rect

/-! ## Boxes -/

theorem ColumnRow.ofJson?_toJson {c : ColumnRow Binary64} (h : c.offsetY.isFinite = true) :
    ofJson? c.toJson = some (c.mapDefault DefaultValue.carried) := by
  simp [ofJson?, toJson, ColumnType.ofJson?_toJson, ColumnSettings.ofJson?_toJson, Coordinate.ofJson?_toJson h,
    mapDefault]

namespace TableBox

structure Finite (n : TableBox Binary64) : Prop where
  position : n.position.Finite
  size : n.size.Finite
  columns : ∀ c ∈ n.columns, c.offsetY.isFinite = true

theorem ofJson?_toJson {n : TableBox Binary64} (h : n.Finite) :
    ofJson? n.toJson = some (n.mapDefaults DefaultValue.carried) := by
  have hcolumns : list? ColumnRow.ofJson? (ofList ColumnRow.toJson n.columns) =
      some (n.columns.map (·.mapDefault DefaultValue.carried)) :=
    list?_ofList fun c hc => c.ofJson?_toJson (h.columns c hc)
  simp [ofJson?, toJson, Point.ofJson?_toJson h.position, Size.ofJson?_toJson h.size, hcolumns, mapDefaults]

end TableBox

/-! ## Edges, frames and notes -/

theorem EdgeEnd.ofJson?_toJson (e : EdgeEnd) : ofJson? e.toJson = some e := by
  simp [ofJson?, toJson]

namespace Edge

def Finite (e : Edge Binary64) : Prop := ∀ p ∈ e.points, p.Finite

theorem ofJson?_toJson {e : Edge Binary64} (h : e.Finite) : ofJson? e.toJson = some e := by
  have hpoints : list? Point.ofJson? (ofList Point.toJson e.points) = some e.points :=
    list?_ofList_self fun p hp => Point.ofJson?_toJson (h p hp)
  obtain ⟨name, source, target, type, points⟩ := e
  cases points with
  | nil =>
    -- an edge without a way is written without points
    simp [ofJson?, toJson, EdgeEnd.ofJson?_toJson, RelationType.ofJson?_toJson]
  | cons p points =>
    simp [ofJson?, toJson, EdgeEnd.ofJson?_toJson, RelationType.ofJson?_toJson, hpoints]

end Edge

namespace GroupFrame

def Finite (g : GroupFrame Binary64) : Prop := ∀ r, g.bounds = some r → r.Finite

theorem ofJson?_toJson {g : GroupFrame Binary64} (h : g.Finite) : ofJson? g.toJson = some g := by
  simp [ofJson?, toJson, Rect.elim_rect h]

end GroupFrame

namespace StickyNote

def Finite (n : StickyNote Binary64) : Prop := n.position.Finite ∧ n.size.Finite

theorem ofJson?_toJson {n : StickyNote Binary64} (h : n.Finite) : ofJson? n.toJson = some n := by
  simp [ofJson?, toJson, Point.ofJson?_toJson h.1, Size.ofJson?_toJson h.2]

end StickyNote

/-! ## Diagrams -/

namespace Diagram

/-- All coordinates are finite. -/
structure Finite (d : Diagram Binary64) : Prop where
  nodes : ∀ n ∈ d.nodes, n.Finite
  edges : ∀ e ∈ d.edges, e.Finite
  groups : ∀ g ∈ d.groups, g.Finite
  notes : ∀ n ∈ d.notes, n.Finite
  bounds : ∀ r, d.bounds = some r → r.Finite

/-- A diagram is read as it was written, but for defaults that JSON does not hold. -/
theorem ofJson?_toJson {d : Diagram Binary64} (h : d.Finite) :
    ofJson? d.toJson = some (d.mapDefaults DefaultValue.carried) := by
  have hnodes : list? TableBox.ofJson? (ofList TableBox.toJson d.nodes) =
      some (d.nodes.map (·.mapDefaults DefaultValue.carried)) :=
    list?_ofList fun n hn => TableBox.ofJson?_toJson (h.nodes n hn)
  have hedges : list? Edge.ofJson? (ofList Edge.toJson d.edges) = some d.edges :=
    list?_ofList_self fun e he => Edge.ofJson?_toJson (h.edges e he)
  have hgroups : list? GroupFrame.ofJson? (ofList GroupFrame.toJson d.groups) = some d.groups :=
    list?_ofList_self fun g hg => GroupFrame.ofJson?_toJson (h.groups g hg)
  have hnotes : list? StickyNote.ofJson? (ofList StickyNote.toJson d.notes) = some d.notes :=
    list?_ofList_self fun n hn => StickyNote.ofJson?_toJson (h.notes n hn)
  simp [ofJson?, toJson, hnodes, hedges, hgroups, hnotes, Rect.elim_rect h.bounds, mapDefaults]

end Diagram

/-! ## Round trips -/

/-- Whatever was read is read again as it is, and schemas and diagrams of finite numbers lose their defaults of
`null` and nothing else. -/
theorem encoding_roundTrip :
    (∀ j s, Schema.ofJson? j = some s → Schema.ofJson? s.toJson = some s) ∧
    (∀ s : Schema, (∀ x, s.HasDefault (.number x) → x.isFinite = true) →
      Schema.ofJson? s.toJson = some (s.mapDefaults DefaultValue.present)) ∧
    ∀ d : Diagram Binary64, d.Finite → (∀ x, d.HasDefault (.number x) → x.isFinite = true) →
      Diagram.ofJson? d.toJson = some (d.mapDefaults DefaultValue.present) := by
  refine ⟨fun j s h => ?_, fun s h => ?_, fun d hd h => ?_⟩
  · rw [Schema.ofJson?_toJson, Schema.carried_of_ofJson? h]
  · rw [Schema.ofJson?_toJson,
      Schema.mapDefaults_congr fun v hv => DefaultValue.carried_eq_present fun x hx => h x (hx ▸ hv)]
  · rw [Diagram.ofJson?_toJson hd,
      Diagram.mapDefaults_congr fun v hv => DefaultValue.carried_eq_present fun x hx => h x (hx ▸ hv)]

/-- A box with one column. -/
def singleColumn (v : DefaultValue) : Diagram Binary64 :=
  let z := Binary64.zero false
  { nodes :=
      [{ id := "t", name := "t", position := ⟨z, z⟩, size := ⟨z, z⟩
         columns :=
           [{ id := "a", name := "a", type := .int, rawType := some "int", settings := { default := some v }
              isPrimaryKey := false, isForeignKey := false, offsetY := z }] }] }

theorem finite_singleColumn (v : DefaultValue) : (singleColumn v).Finite where
  nodes n hn := by
    have hzero : (Binary64.zero false).isFinite = true := by decide
    cases List.mem_singleton.1 hn
    refine ⟨⟨hzero, hzero⟩, ⟨hzero, hzero⟩, fun c hc => ?_⟩
    cases List.mem_singleton.1 hc
    exact hzero
  edges := nofun
  groups := nofun
  notes := nofun
  bounds := nofun

/-- A schema by position, with a table by name: an unknown field, a type as an object, and absent values. -/
def positional : Json :=
  .arr [.arr [.obj
      [("name", .str "t"), ("alias", .null), ("color", .str "red"),
       ("columns",
         .arr [.arr [.str "a", .obj [("int", .null)], .null, .obj [("default", .int 3)]],
           .arr [.str "b", .str "text"]])]],
    .arr [], .arr [], .arr []]

/-- What stands in a shorter form comes back once it is written in full, and a default of `null` gets lost. -/
theorem encoding_positional :
    (∃ s, Schema.ofJson? positional = some s ∧ Schema.ofJson? s.toJson = some s) ∧ (singleColumn .null).Finite ∧
      Diagram.ofJson? (singleColumn .null).toJson = some ((singleColumn .null).mapDefaults DefaultValue.present) := by
  obtain ⟨s, hs⟩ := Option.isSome_iff_exists.1 (show (Schema.ofJson? positional).isSome = true by decide)
  refine ⟨⟨s, hs, encoding_roundTrip.1 positional s hs⟩, finite_singleColumn .null, ?_⟩
  refine encoding_roundTrip.2.2 _ (finite_singleColumn .null) ?_
  rintro x ⟨n, hn, c, hc, hx⟩
  cases List.mem_singleton.1 hn
  cases List.mem_singleton.1 hc
  cases hx

/-- A default of infinity gets lost as well, though it is not `null`. -/
theorem infiniteDefault_lost : (singleColumn (.number (.infinity false))).Finite ∧
    Diagram.ofJson? (singleColumn (.number (.infinity false))).toJson ≠
      some ((singleColumn (.number (.infinity false))).mapDefaults DefaultValue.present) := by
  refine ⟨finite_singleColumn _, ?_⟩
  rw [Diagram.ofJson?_toJson (finite_singleColumn _)]
  decide

end Erd
