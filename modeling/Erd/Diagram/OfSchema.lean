import Erd.Diagram.Metrics

/-!
# The diagram of a schema

Every table becomes a box, every relation an edge and every group a frame, whether or not what they name
exists.  A column is marked as a foreign key if its path is the path of the near side of a relation.
-/

namespace Erd

variable {α : Type} [Scalar α]

namespace TableBox

/-- The row of a column; `foreignKeys` are the paths of referencing columns. -/
def row (m : Metrics α) (foreignKeys : List String) (table : String) (c : Column) (index : Nat) :
    ColumnRow α :=
  let id := columnPath table c.name
  { id
    name := c.name
    type := c.type
    rawType := c.rawType
    settings := c.settings
    isPrimaryKey := c.settings.primaryKey
    isForeignKey := foreignKeys.contains id
    offsetY := m.columnOffset index }

/-- The box of a table, not placed yet. -/
def ofTable (m : Metrics α) (foreignKeys : List String) (group : Option String) (t : Table) :
    TableBox α :=
  { id := t.name
    name := t.name
    schema := t.schema
    shortName := t.shortName
    note := t.note
    position := Point.origin
    size := m.boxSize t
    columns := t.columns.zipIdx.map fun (c, i) => row m foreignKeys t.name c i
    group }

end TableBox

namespace EdgeEnd

def ofEndpoint (e : Endpoint) : EdgeEnd := ⟨e.table, e.path⟩

end EdgeEnd

namespace Edge

def ofRelation (r : Relation) : Edge α :=
  { id := r.name.getD r.key
    source := .ofEndpoint r.source
    target := .ofEndpoint r.target
    type := r.type }

end Edge

namespace GroupFrame

def ofGroup (g : TableGroup) : GroupFrame α := { id := g.name, name := g.name, members := g.tables }

end GroupFrame

namespace Schema

/-- The name of the last group that lists a table. -/
def groupOf? (s : Schema) (table : String) : Option String :=
  ((s.groups.filter (·.tables.contains table)).getLast?).map (·.name)

def toDiagram (m : Metrics α) (s : Schema) : Diagram α :=
  let foreignKeys := s.relations.map (·.source.path)
  { nodes := s.tables.map fun t => .ofTable m foreignKeys (s.groupOf? t.name) t
    edges := s.relations.map .ofRelation
    groups := s.groups.map .ofGroup }

end Schema

end Erd
