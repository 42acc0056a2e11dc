import Erd.Diagram.Framing
import Erd.Layout.Options
import Erd.Schema.Json

/-!
# Diagrams, metrics and options as JSON

Coordinates are written as numbers of 64 bits; one that is not finite is written as `null` and does not
read back.
-/

namespace Erd

variable {α : Type} [Coordinate α]

namespace Coordinate

def toJson (a : α) : Json := .ofNumber (toBinary a)

def ofJson? (x : Json) : Option α := x.number?.map ofBinary

end Coordinate

namespace Point

def toJson (p : Point α) : Json :=
  .record [Json.field "x" (Coordinate.toJson p.x), Json.field "y" (Coordinate.toJson p.y)]

def ofJson? (x : Json) : Option (Point α) := do
  let fs ← x.fields? ["x", "y"]
  return ⟨← Record.required fs "x" Coordinate.ofJson?, ← Record.required fs "y" Coordinate.ofJson?⟩

end Point

namespace Size

def toJson (s : Size α) : Json :=
  .record
    [Json.field "width" (Coordinate.toJson s.width), Json.field "height" (Coordinate.toJson s.height)]

def ofJson? (x : Json) : Option (Size α) := do
  let fs ← x.fields? ["width", "height"]
  return ⟨← Record.required fs "width" Coordinate.ofJson?,
    ← Record.required fs "height" Coordinate.ofJson?⟩

end Size

namespace Rect

def toJson (r : Rect α) : Json :=
  .record
    [Json.field "x" (Coordinate.toJson r.x), Json.field "y" (Coordinate.toJson r.y),
     Json.field "width" (Coordinate.toJson r.width), Json.field "height" (Coordinate.toJson r.height)]

def ofJson? (x : Json) : Option (Rect α) := do
  let fs ← x.fields? ["x", "y", "width", "height"]
  return {
    x := ← Record.required fs "x" Coordinate.ofJson?
    y := ← Record.required fs "y" Coordinate.ofJson?
    width := ← Record.required fs "width" Coordinate.ofJson?
    height := ← Record.required fs "height" Coordinate.ofJson? }

end Rect

namespace ColumnRow

def toJson (c : ColumnRow α) : Json :=
  .record
    [Json.field "id" (.str c.id), Json.field "name" (.str c.name), Json.field "type" c.type.toJson,
     Json.optionalField "rawType" .str c.rawType, Json.field "settings" c.settings.toJson,
     Json.field "isPrimaryKey" (.bool c.isPrimaryKey),
     Json.field "isForeignKey" (.bool c.isForeignKey),
     Json.field "offsetY" (Coordinate.toJson c.offsetY)]

def ofJson? (x : Json) : Option (ColumnRow α) := do
  let fs ← x.fields?
    ["id", "name", "type", "rawType", "settings", "isPrimaryKey", "isForeignKey", "offsetY"]
  return {
    id := ← Record.required fs "id" Json.string?
    name := ← Record.required fs "name" Json.string?
    type := ← Record.required fs "type" ColumnType.ofJson?
    rawType := ← Json.optional fs "rawType" Json.string?
    settings := ← Record.defaulted fs "settings" {} ColumnSettings.ofJson?
    isPrimaryKey := ← Record.required fs "isPrimaryKey" Json.bool?
    isForeignKey := ← Record.required fs "isForeignKey" Json.bool?
    offsetY := ← Record.required fs "offsetY" Coordinate.ofJson? }

end ColumnRow

namespace TableBox

def toJson (n : TableBox α) : Json :=
  .record
    [Json.field "id" (.str n.id), Json.field "name" (.str n.name),
     Json.optionalField "schema" .str n.schema, Json.optionalField "alias" .str n.shortName,
     Json.optionalField "note" .str n.note, Json.field "position" n.position.toJson,
     Json.field "size" n.size.toJson, Json.field "columns" (.ofList ColumnRow.toJson n.columns),
     Json.optionalField "group" .str n.group, Json.field "collapsed" (.bool n.collapsed)]

def ofJson? (x : Json) : Option (TableBox α) := do
  let fs ← x.fields?
    ["id", "name", "schema", "alias", "note", "position", "size", "columns", "group", "collapsed"]
  return {
    id := ← Record.required fs "id" Json.string?
    name := ← Record.required fs "name" Json.string?
    schema := ← Json.optional fs "schema" Json.string?
    shortName := ← Json.optional fs "alias" Json.string?
    note := ← Json.optional fs "note" Json.string?
    position := ← Record.required fs "position" Point.ofJson?
    size := ← Record.required fs "size" Size.ofJson?
    columns := ← Record.required fs "columns" (Json.list? ColumnRow.ofJson?)
    group := ← Json.optional fs "group" Json.string?
    collapsed := ← Record.defaulted fs "collapsed" false Json.bool? }

end TableBox

namespace EdgeEnd

def toJson (e : EdgeEnd) : Json :=
  .record [Json.field "nodeId" (.str e.node), Json.field "columnId" (.str e.column)]

def ofJson? (x : Json) : Option EdgeEnd := do
  let fs ← x.fields? ["nodeId", "columnId"]
  return ⟨← Record.required fs "nodeId" Json.string?, ← Record.required fs "columnId" Json.string?⟩

end EdgeEnd

namespace Edge

def toJson (e : Edge α) : Json :=
  .record
    [Json.field "id" (.str e.id), Json.field "from" e.source.toJson, Json.field "to" e.target.toJson,
     Json.field "type" e.type.toJson,
     if e.points.isEmpty then none else Json.field "points" (.ofList Point.toJson e.points)]

def ofJson? (x : Json) : Option (Edge α) := do
  let fs ← x.fields? ["id", "from", "to", "type", "points"]
  return {
    id := ← Record.required fs "id" Json.string?
    source := ← Record.required fs "from" EdgeEnd.ofJson?
    target := ← Record.required fs "to" EdgeEnd.ofJson?
    type := ← Record.required fs "type" RelationType.ofJson?
    points := ← Record.defaulted fs "points" [] (Json.list? Point.ofJson?) }

end Edge

namespace GroupFrame

def toJson (g : GroupFrame α) : Json :=
  .record
    [Json.field "id" (.str g.id), Json.field "name" (.str g.name),
     Json.field "nodeIds" (.ofList .str g.members), Json.optionalField "bounds" Rect.toJson g.bounds,
     Json.field "collapsed" (.bool g.collapsed), Json.optionalField "color" .str g.color]

def ofJson? (x : Json) : Option (GroupFrame α) := do
  let fs ← x.fields? ["id", "name", "nodeIds", "bounds", "collapsed", "color"]
  return {
    id := ← Record.required fs "id" Json.string?
    name := ← Record.required fs "name" Json.string?
    members := ← Record.required fs "nodeIds" (Json.list? Json.string?)
    bounds := ← Json.optional fs "bounds" Rect.ofJson?
    collapsed := ← Record.defaulted fs "collapsed" false Json.bool?
    color := ← Json.optional fs "color" Json.string? }

end GroupFrame

namespace StickyNote

def toJson (n : StickyNote α) : Json :=
  .record
    [Json.field "id" (.str n.id), Json.field "text" (.str n.text),
     Json.field "position" n.position.toJson, Json.field "size" n.size.toJson,
     Json.optionalField "color" .str n.color]

def ofJson? (x : Json) : Option (StickyNote α) := do
  let fs ← x.fields? ["id", "text", "position", "size", "color"]
  return {
    id := ← Record.required fs "id" Json.string?
    text := ← Record.required fs "text" Json.string?
    position := ← Record.required fs "position" Point.ofJson?
    size := ← Record.required fs "size" Size.ofJson?
    color := ← Json.optional fs "color" Json.string? }

end StickyNote

namespace Diagram

def toJson (d : Diagram α) : Json :=
  .record
    [Json.field "nodes" (.ofList TableBox.toJson d.nodes),
     Json.field "edges" (.ofList Edge.toJson d.edges),
     Json.field "groups" (.ofList GroupFrame.toJson d.groups),
     Json.field "notes" (.ofList StickyNote.toJson d.notes),
     Json.optionalField "bounds" Rect.toJson d.bounds]

def ofJson? (x : Json) : Option (Diagram α) := do
  let fs ← x.fields? ["nodes", "edges", "groups", "notes", "bounds"]
  return {
    nodes := ← Record.required fs "nodes" (Json.list? TableBox.ofJson?)
    edges := ← Record.required fs "edges" (Json.list? Edge.ofJson?)
    groups := ← Record.defaulted fs "groups" [] (Json.list? GroupFrame.ofJson?)
    notes := ← Record.defaulted fs "notes" [] (Json.list? StickyNote.ofJson?)
    bounds := ← Json.optional fs "bounds" Rect.ofJson? }

end Diagram

namespace Metrics

def fieldNames : List String :=
  ["headerHeight", "columnHeight", "charWidth", "padding", "minWidth", "groupPadding",
   "groupHeaderHeight"]

def toJson (m : Metrics α) : Json :=
  .record
    [Json.field "headerHeight" (Coordinate.toJson m.headerHeight),
     Json.field "columnHeight" (Coordinate.toJson m.columnHeight),
     Json.field "charWidth" (Coordinate.toJson m.charWidth),
     Json.field "padding" (Coordinate.toJson m.padding),
     Json.field "minWidth" (Coordinate.toJson m.minWidth),
     Json.field "groupPadding" (Coordinate.toJson m.groupPadding),
     Json.field "groupHeaderHeight" (Coordinate.toJson m.groupHeaderHeight)]

/-- Metrics of which any may be absent. -/
def ofFields? [Scalar α] {Value : Type} (read : Value → Option α) (fs : Record.Fields Value) :
    Option (Metrics α) := do
  let base : Metrics α := standard
  return {
    headerHeight := ← Record.defaulted fs "headerHeight" base.headerHeight read
    columnHeight := ← Record.defaulted fs "columnHeight" base.columnHeight read
    charWidth := ← Record.defaulted fs "charWidth" base.charWidth read
    padding := ← Record.defaulted fs "padding" base.padding read
    minWidth := ← Record.defaulted fs "minWidth" base.minWidth read
    groupPadding := ← Record.defaulted fs "groupPadding" base.groupPadding read
    groupHeaderHeight := ← Record.defaulted fs "groupHeaderHeight" base.groupHeaderHeight read }

def ofJson? [Scalar α] (x : Json) : Option (Metrics α) :=
  (x.fields? fieldNames).bind (ofFields? Coordinate.ofJson?)

end Metrics

namespace Direction

def toJson (d : Direction) : Json := .str d.name

def ofJson? : Json → Option Direction := Json.variant? ofName?

end Direction

namespace LayoutOptions

def fieldNames : List String := ["direction", "nodeSpacingX", "nodeSpacingY", "padding"]

def toJson (o : LayoutOptions α) : Json :=
  .record
    [Json.field "direction" o.direction.toJson,
     Json.field "nodeSpacingX" (Coordinate.toJson o.nodeSpacing),
     Json.field "nodeSpacingY" (Coordinate.toJson o.rankSpacing),
     Json.field "padding" (Coordinate.toJson o.padding)]

/-- Options of which any may be absent. -/
def ofFields? [Scalar α] {Value : Type} (direction : Value → Option Direction)
    (distance : Value → Option α) (fs : Record.Fields Value) : Option (LayoutOptions α) := do
  let base : LayoutOptions α := standard
  return {
    direction := ← Record.defaulted fs "direction" base.direction direction
    nodeSpacing := ← Record.defaulted fs "nodeSpacingX" base.nodeSpacing distance
    rankSpacing := ← Record.defaulted fs "nodeSpacingY" base.rankSpacing distance
    padding := ← Record.defaulted fs "padding" base.padding distance }

def ofJson? [Scalar α] (x : Json) : Option (LayoutOptions α) :=
  (x.fields? fieldNames).bind (ofFields? Direction.ofJson? Coordinate.ofJson?)

end LayoutOptions

end Erd
