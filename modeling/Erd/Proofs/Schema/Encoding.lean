import Erd.Proofs.Json.Record
import Erd.Proofs.Schema.Defaults
import Erd.Schema.Json

/-!
# Schemas written and read

Every part of a schema is read as it was written, but for defaults that JSON does not hold: `null` stands for no
default, and a number that is not finite is written as `null`.  Whatever was read has no such default.

    v.toJson is read as v.carried                                                       (nullable_toJson)
    Schema.ofJson? s.toJson = some (s.mapDefaults DefaultValue.carried)                   (ofJson?_toJson)
    Schema.ofJson? j = some s → s.mapDefaults DefaultValue.carried = s                    (carried_of_ofJson?)
-/

namespace Erd

open Json

/-! ## Values -/

namespace DefaultValue

/-- What a written default is read as. -/
def carried : DefaultChange
  | number x => (finite? x).map number
  | null => none
  | v => some v

/-- A default, unless it is `null`. -/
def present : DefaultChange
  | null => none
  | v => some v

theorem carried_eq_present {v : DefaultValue} (h : ∀ x, v = number x → x.isFinite = true) : v.carried = v.present := by
  cases v with
  | number x =>
    show (finite? x).map number = some (number x)
    rw [finite?, if_pos (h x rfl)]
    rfl
  | _ => rfl

theorem nullable_toJson (v : DefaultValue) : nullable ofJson? v.toJson = some v.carried := by
  cases v with
  | number x =>
    show nullable ofJson? (if x.isFinite then .float x else .null) = some ((finite? x).map number)
    unfold finite?
    by_cases hx : x.isFinite = true
    · rw [if_pos hx, if_pos hx]
      show ((finite? x).map number).map some = _
      rw [finite?, if_pos hx]
      rfl
    · rw [if_neg hx, if_neg hx]
      rfl
  | _ => rfl

theorem finite?_eq_some {x y : Binary64} (h : finite? x = some y) : finite? y = some y := by
  unfold finite? at h
  split at h
  · cases h
    next hx => exact if_pos hx
  · cases h

/-- A value that was read is carried by JSON, unless it is `null`. -/
theorem carried_of_ofJson? {x : Json} {v : DefaultValue} (hx : x ≠ .null) (h : ofJson? x = some v) :
    v.carried = some v := by
  have hnumber {x : Json} (h : x.number?.map number = some v) : v.carried = some v := by
    obtain ⟨y, hy, rfl⟩ := Option.map_eq_some_iff.1 h
    have hfinite : finite? y = some y := by
      cases x with
      | int n => exact finite?_eq_some hy
      | float x => exact finite?_eq_some hy
      | _ => cases hy
    show (finite? y).map number = some (number y)
    rw [hfinite]
    rfl
  cases x with
  | null => exact absurd rfl hx
  | bool b =>
    cases h
    rfl
  | str s =>
    cases h
    rfl
  | int n => exact hnumber h
  | float x => exact hnumber h
  | arr xs => cases h
  | obj ms => cases h

end DefaultValue

theorem ColumnType.ofJson?_toJson (t : ColumnType) : ofJson? t.toJson = some t := by
  cases t <;> rfl

theorem RelationType.ofJson?_toJson (t : RelationType) : ofJson? t.toJson = some t := by
  cases t <;> rfl

/-! ## Columns -/

namespace ColumnSettings

theorem uint32?_sizeJson (n : UInt32) : (sizeJson n).uint32? = some n := by
  unfold uint32? sizeJson
  rw [below?_ofCount n.toNat_lt_size, Option.map_some, UInt32.ofNat_toNat]

@[simp] theorem elim_size (n : Option UInt32) : n.elim (some none) (nullable uint32? ∘ sizeJson) = some n := by
  have hread (m : UInt32) : nullable uint32? (sizeJson m) = some (some m) := by
    rw [nullable_eq (show sizeJson m ≠ .null from nofun), uint32?_sizeJson]
    rfl
  rw [elim_written fun m _ => hread m, Option.bind_fun_some]

theorem ofJson?_toJson (s : ColumnSettings) : ofJson? s.toJson = some (s.mapDefault DefaultValue.carried) := by
  have hdefault : s.default.elim (some none) (nullable DefaultValue.ofJson? ∘ DefaultValue.toJson) =
      some (s.default.bind DefaultValue.carried) := elim_written fun v _ => v.nullable_toJson
  simp [ofJson?, toJson, hdefault, mapDefault]

/-- Settings that were read have no default that JSON does not hold. -/
theorem carried_of_ofJson? {x : Json} {s : ColumnSettings} (h : ofJson? x = some s) {v : DefaultValue}
    (hv : s.default = some v) : v.carried = some v := by
  unfold ofJson? at h
  simp only [Option.bind_eq_bind, Option.bind_eq_some_iff, Option.pure_def] at h
  obtain ⟨fs, -, primaryKey, -, unique, -, notNull, -, autoIncrement, -, default, hdefault, h⟩ := h
  obtain ⟨note, -, length, -, precision, -, scale, -, enumValues, -, heq⟩ := h
  cases heq
  have hv : default = some v := hv
  subst hv
  obtain ⟨x, hx, hread⟩ := exists_of_optional hdefault
  exact DefaultValue.carried_of_ofJson? hx hread

end ColumnSettings

namespace Column

theorem ofJson?_toJson (c : Column) : ofJson? c.toJson = some (c.mapDefault DefaultValue.carried) := by
  simp [ofJson?, toJson, ColumnType.ofJson?_toJson, ColumnSettings.ofJson?_toJson, mapDefault]

theorem carried_of_ofJson? {x : Json} {c : Column} (h : ofJson? x = some c) {v : DefaultValue}
    (hv : c.settings.default = some v) : v.carried = some v := by
  unfold ofJson? at h
  simp only [Option.bind_eq_bind, Option.bind_eq_some_iff, Option.pure_def] at h
  obtain ⟨fs, -, name, -, type, -, rawType, -, settings, hsettings, heq⟩ := h
  cases heq
  rcases Record.exists_of_defaulted hsettings with rfl | ⟨y, hy⟩
  · cases hv
  · exact ColumnSettings.carried_of_ofJson? hy hv

end Column

/-! ## Tables -/

theorem Index.ofJson?_toJson (i : Index) : ofJson? i.toJson = some i := by
  simp [ofJson?, toJson]

namespace Table

theorem ofJson?_toJson (t : Table) : ofJson? t.toJson = some (t.mapDefaults DefaultValue.carried) := by
  have hcolumns : list? Column.ofJson? (ofList Column.toJson t.columns) =
      some (t.columns.map (·.mapDefault DefaultValue.carried)) := list?_ofList fun c _ => c.ofJson?_toJson
  have hindexes : list? Index.ofJson? (ofList Index.toJson t.indexes) = some t.indexes :=
    list?_ofList_self fun i _ => i.ofJson?_toJson
  simp [ofJson?, toJson, hcolumns, hindexes, mapDefaults]

theorem carried_of_ofJson? {x : Json} {t : Table} (h : ofJson? x = some t) {c : Column} (hc : c ∈ t.columns)
    {v : DefaultValue} (hv : c.settings.default = some v) : v.carried = some v := by
  unfold ofJson? at h
  simp only [Option.bind_eq_bind, Option.bind_eq_some_iff, Option.pure_def] at h
  obtain ⟨fs, -, name, -, schema, -, shortName, -, columns, hcolumns, indexes, -, note, -, heq⟩ := h
  cases heq
  obtain ⟨y, hy⟩ := Record.exists_of_required hcolumns
  obtain ⟨z, hz⟩ := exists_of_list? hy hc
  exact Column.carried_of_ofJson? hz hv

end Table

/-! ## Relations, enumerations and groups -/

theorem Endpoint.ofJson?_toJson (e : Endpoint) : ofJson? e.toJson = some e := by
  simp [ofJson?, toJson]

theorem Relation.ofJson?_toJson (r : Relation) : ofJson? r.toJson = some r := by
  simp [ofJson?, toJson, Endpoint.ofJson?_toJson, RelationType.ofJson?_toJson]

theorem EnumValue.ofJson?_toJson (v : EnumValue) : ofJson? v.toJson = some v := by
  simp [ofJson?, toJson]

theorem Enumeration.ofJson?_toJson (e : Enumeration) : ofJson? e.toJson = some e := by
  have hvalues : list? EnumValue.ofJson? (ofList EnumValue.toJson e.values) = some e.values :=
    list?_ofList_self fun v _ => v.ofJson?_toJson
  simp [ofJson?, toJson, hvalues]

theorem TableGroup.ofJson?_toJson (g : TableGroup) : ofJson? g.toJson = some g := by
  simp [ofJson?, toJson]

/-! ## Schemas -/

namespace Schema

/-- A schema is read as it was written, but for defaults that JSON does not hold. -/
theorem ofJson?_toJson (s : Schema) : ofJson? s.toJson = some (s.mapDefaults DefaultValue.carried) := by
  have htables : list? Table.ofJson? (ofList Table.toJson s.tables) =
      some (s.tables.map (·.mapDefaults DefaultValue.carried)) := list?_ofList fun t _ => t.ofJson?_toJson
  have hrelations : list? Relation.ofJson? (ofList Relation.toJson s.relations) = some s.relations :=
    list?_ofList_self fun r _ => r.ofJson?_toJson
  have henums : list? Enumeration.ofJson? (ofList Enumeration.toJson s.enums) = some s.enums :=
    list?_ofList_self fun e _ => e.ofJson?_toJson
  have hgroups : list? TableGroup.ofJson? (ofList TableGroup.toJson s.groups) = some s.groups :=
    list?_ofList_self fun g _ => g.ofJson?_toJson
  simp [ofJson?, toJson, htables, hrelations, henums, hgroups, mapDefaults]

/-- A schema that was read has no default that JSON does not hold. -/
theorem carried_of_ofJson? {x : Json} {s : Schema} (h : ofJson? x = some s) :
    s.mapDefaults DefaultValue.carried = s := by
  have hdefaults (v : DefaultValue) (hv : s.HasDefault v) : v.carried = some v := by
    unfold ofJson? at h
    simp only [Option.bind_eq_bind, Option.bind_eq_some_iff, Option.pure_def] at h
    obtain ⟨fs, -, tables, htables, relations, -, enums, -, groups, -, name, -, note, -, heq⟩ := h
    cases heq
    obtain ⟨t, ht, c, hc, hv⟩ := hv
    obtain ⟨y, hy⟩ := Record.exists_of_required htables
    obtain ⟨z, hz⟩ := exists_of_list? hy ht
    exact Table.carried_of_ofJson? hz hc hv
  exact (mapDefaults_congr hdefaults).trans s.mapDefaults_some

end Schema

end Erd
