import Erd.Grammar.Document

/-!
# Schemas one behind the other

Columns are resolved by name against the enumerations of the whole schema, and the name that was written
stays.  So it makes no difference to the whole whether its parts were resolved before.

    (A.resolveEnums.append B.resolveEnums).resolveEnums = (A.append B).resolveEnums       (resolveEnums_append)
    ofStatements (xs ++ ys) = ((ofStatements xs).append (ofStatements ys)).resolveEnums   (ofStatements_append)
-/

namespace Erd

namespace Column

theorem rawType_resolveEnum (enums : List Enumeration) (c : Column) :
    (c.resolveEnum enums).rawType = c.rawType := by
  unfold resolveEnum
  split
  · rfl
  · split <;> rfl

theorem resolveEnum_some {enums : List Enumeration} {c : Column} {raw : String} {e : Enumeration}
    (hr : c.rawType = some raw) (he : enums.find? (·.name == raw) = some e) :
    c.resolveEnum enums =
      { c with type := .enum, settings := { c.settings with enumValues := some e.valueNames } } := by
  unfold resolveEnum
  simp only [hr, he]

theorem resolveEnum_none {enums : List Enumeration} {c : Column}
    (h : ∀ raw, c.rawType = some raw → enums.find? (·.name == raw) = none) : c.resolveEnum enums = c := by
  unfold resolveEnum
  cases hr : c.rawType with
  | none => rfl
  | some raw => simp only [h raw hr]

/-- Resolving a column first against fewer enumerations makes no difference. -/
theorem resolveEnum_resolveEnum {enums more : List Enumeration}
    (h : ∀ name, enums.find? (·.name == name) ≠ none → more.find? (·.name == name) ≠ none) (c : Column) :
    (c.resolveEnum enums).resolveEnum more = c.resolveEnum more := by
  by_cases hf : ∃ raw e, c.rawType = some raw ∧ enums.find? (·.name == raw) = some e
  · obtain ⟨raw, e, hr, he⟩ := hf
    obtain ⟨e', he'⟩ := Option.ne_none_iff_exists'.1 (h raw (by rw [he]; nofun))
    rw [resolveEnum_some hr he', resolveEnum_some ((rawType_resolveEnum enums c).trans hr) he',
      resolveEnum_some hr he]
  · refine congrArg (resolveEnum more) (resolveEnum_none fun raw hr => ?_)
    rw [Option.eq_none_iff_forall_ne_some]
    exact fun e he => hf ⟨raw, e, hr, he⟩

end Column

namespace Schema

/-- The declarations of two schemas, those of the first in front. -/
def append (A B : Schema) : Schema :=
  { A with
    tables := A.tables ++ B.tables
    relations := A.relations ++ B.relations
    enums := A.enums ++ B.enums
    groups := A.groups ++ B.groups }

theorem declared_append (xs ys : List Statement) : declared (xs ++ ys) = (declared xs).append (declared ys) := by
  simp [declared, append]

/-- Resolving the parts first makes no difference to the whole. -/
theorem resolveEnums_append (A B : Schema) :
    (A.resolveEnums.append B.resolveEnums).resolveEnums = (A.append B).resolveEnums := by
  have hA : ∀ name, A.enums.find? (·.name == name) ≠ none →
      (A.enums ++ B.enums).find? (·.name == name) ≠ none := by
    intro name h
    rw [List.find?_append]
    obtain ⟨e, he⟩ := Option.ne_none_iff_exists'.1 h
    simp [he]
  have hB : ∀ name, B.enums.find? (·.name == name) ≠ none →
      (A.enums ++ B.enums).find? (·.name == name) ≠ none := by
    intro name h
    rw [List.find?_append]
    cases A.enums.find? (·.name == name) with
    | none => exact h
    | some e => nofun
  simp [resolveEnums, append, Function.comp_def, Column.resolveEnum_resolveEnum hA,
    Column.resolveEnum_resolveEnum hB]

theorem ofStatements_append (xs ys : List Statement) :
    ofStatements (xs ++ ys) = ((ofStatements xs).append (ofStatements ys)).resolveEnums := by
  rw [ofStatements, declared_append]
  exact (resolveEnums_append _ _).symm

end Schema

end Erd
