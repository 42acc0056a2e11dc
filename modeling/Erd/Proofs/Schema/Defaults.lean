import Erd.Diagram.Basic

/-!
# Defaults of columns

What a change of defaults makes of schemas and diagrams: a function says what is left of each default.  Changes
that agree on the defaults of a schema or diagram agree on all of it.

    (∀ v, s.HasDefault v → f v = g v) → s.mapDefaults f = s.mapDefaults g              (mapDefaults_congr)
    s.mapDefaults some = s                                                              (mapDefaults_some)
-/

namespace Erd

/-- What is left of a default, if anything. -/
abbrev DefaultChange := DefaultValue → Option DefaultValue

namespace ColumnSettings

def mapDefault (f : DefaultChange) (s : ColumnSettings) : ColumnSettings := { s with default := s.default.bind f }

variable {f g : DefaultChange} {s : ColumnSettings}

theorem mapDefault_congr (h : ∀ v, s.default = some v → f v = g v) : s.mapDefault f = s.mapDefault g := by
  have hbind : s.default.bind f = s.default.bind g := by
    cases hs : s.default with
    | none => rfl
    | some v => exact h v hs
  exact congrArg (fun d => { s with default := d }) hbind

@[simp] theorem mapDefault_some (s : ColumnSettings) : s.mapDefault some = s := by
  unfold mapDefault
  rw [Option.bind_fun_some]

end ColumnSettings

/-! ## Schemas -/

def Column.mapDefault (f : DefaultChange) (c : Column) : Column := { c with settings := c.settings.mapDefault f }

def Table.mapDefaults (f : DefaultChange) (t : Table) : Table := { t with columns := t.columns.map (·.mapDefault f) }

namespace Schema

def mapDefaults (f : DefaultChange) (s : Schema) : Schema := { s with tables := s.tables.map (·.mapDefaults f) }

/-- A value is the default of some column. -/
def HasDefault (s : Schema) (v : DefaultValue) : Prop :=
  ∃ t ∈ s.tables, ∃ c ∈ t.columns, c.settings.default = some v

theorem mapDefaults_congr {f g : DefaultChange} {s : Schema} (h : ∀ v, s.HasDefault v → f v = g v) :
    s.mapDefaults f = s.mapDefaults g := by
  refine congrArg (fun ts => { s with tables := ts }) (List.map_congr_left fun t ht => ?_)
  refine congrArg (fun cs => { t with columns := cs }) (List.map_congr_left fun c hc => ?_)
  refine congrArg (fun d => { c with settings := d }) (ColumnSettings.mapDefault_congr fun v hv => ?_)
  exact h v ⟨t, ht, c, hc, hv⟩

theorem mapDefaults_some (s : Schema) : s.mapDefaults some = s := by
  have hcolumn (c : Column) : c.mapDefault some = c :=
    congrArg (fun d => { c with settings := d }) c.settings.mapDefault_some
  have htable (t : Table) : t.mapDefaults some = t := by
    unfold Table.mapDefaults
    rw [List.map_congr_left fun c _ => hcolumn c, List.map_id']
  unfold mapDefaults
  rw [List.map_congr_left fun t _ => htable t, List.map_id']

end Schema

/-! ## Diagrams -/

variable {α : Type}

def ColumnRow.mapDefault (f : DefaultChange) (c : ColumnRow α) : ColumnRow α :=
  { c with settings := c.settings.mapDefault f }

def TableBox.mapDefaults (f : DefaultChange) (n : TableBox α) : TableBox α :=
  { n with columns := n.columns.map (·.mapDefault f) }

namespace Diagram

def mapDefaults (f : DefaultChange) (d : Diagram α) : Diagram α := { d with nodes := d.nodes.map (·.mapDefaults f) }

/-- A value is the default of some column. -/
def HasDefault (d : Diagram α) (v : DefaultValue) : Prop :=
  ∃ n ∈ d.nodes, ∃ c ∈ n.columns, c.settings.default = some v

theorem mapDefaults_congr {f g : DefaultChange} {d : Diagram α} (h : ∀ v, d.HasDefault v → f v = g v) :
    d.mapDefaults f = d.mapDefaults g := by
  refine congrArg (fun ns => { d with nodes := ns }) (List.map_congr_left fun n hn => ?_)
  refine congrArg (fun cs => { n with columns := cs }) (List.map_congr_left fun c hc => ?_)
  refine congrArg (fun d => { c with settings := d }) (ColumnSettings.mapDefault_congr fun v hv => ?_)
  exact h v ⟨n, hn, c, hc, hv⟩

end Diagram

end Erd
