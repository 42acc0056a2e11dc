import Mathlib.Data.Option.Basic
import Erd.Json.Record

/-!
# Written records

A record holds each field that was written under its name, so a reader of the same names finds what the writer
put there, and nothing under the name of a field that was left out.  Whatever a reader returns, on the other
hand, was read from some value.

    fields are looked up by name              (lookup_field, lookup_optionalField, lookup_flagField)
    read (write a) = some (g a) for all a in xs → list? read (ofList write xs) = some (xs.map g)          (list?_ofList)
    list? read x = some as → every a in as was read                                      (exists_of_list?)
-/

namespace Erd

/-! ## Readers by what they look up -/

namespace Record

variable {Value α : Type} {fs : Fields Value} {name : String} {read : Value → Option α} {a default : α}

@[simp] theorem required_eq (fs : Fields Value) (name : String) (read : Value → Option α) :
    required fs name read = (fs.lookup name).bind read := by
  unfold required
  cases fs.lookup name <;> rfl

@[simp] theorem defaulted_eq (fs : Fields Value) (name : String) (default : α) (read : Value → Option α) :
    defaulted fs name default read = (fs.lookup name).elim (some default) read := by
  unfold defaulted
  cases fs.lookup name <;> rfl

theorem exists_of_required (h : required fs name read = some a) : ∃ x, read x = some a := by
  rw [required_eq] at h
  obtain ⟨x, -, hx⟩ := Option.bind_eq_some_iff.1 h
  exact ⟨x, hx⟩

theorem exists_of_defaulted (h : defaulted fs name default read = some a) : a = default ∨ ∃ x, read x = some a := by
  rw [defaulted_eq] at h
  cases hx : fs.lookup name with
  | none =>
    rw [hx] at h
    exact Or.inl (Option.some.inj h).symm
  | some x =>
    rw [hx] at h
    exact Or.inr ⟨x, h⟩

end Record

namespace Json

variable {α β : Type} {read : Json → Option α}

/-- A reader that takes `null` for an absent value. -/
def nullable (read : Json → Option α) : Json → Option (Option α)
  | .null => some none
  | x => (read x).map some

theorem nullable_eq {x : Json} (h : x ≠ .null) : nullable read x = (read x).map some := by
  cases x <;> first | rfl | exact absurd rfl h

@[simp] theorem optional_eq (fs : Fields) (name : String) (read : Json → Option α) :
    optional fs name read = (fs.lookup name).elim (some none) (nullable read) := by
  unfold optional
  cases fs.lookup name with
  | none => rfl
  | some x => cases x <;> rfl

theorem exists_of_optional {fs : Fields} {name : String} {a : α} (h : optional fs name read = some (some a)) :
    ∃ x, x ≠ .null ∧ read x = some a := by
  rw [optional_eq] at h
  cases hx : fs.lookup name with
  | none =>
    rw [hx] at h
    cases h
  | some x =>
    rw [hx] at h
    have hne : x ≠ .null := by
      rintro rfl
      cases h
    have hread : (read x).map some = some (some a) := (nullable_eq hne).symm.trans h
    obtain ⟨b, hb, heq⟩ := Option.map_eq_some_iff.1 hread
    exact ⟨x, hne, hb.trans heq⟩

theorem exists_of_mapM {xs : List Json} {as : List α} (h : xs.mapM read = some as) {a : α} (ha : a ∈ as) :
    ∃ y, read y = some a := by
  induction xs generalizing as with
  | nil =>
    cases h
    cases ha
  | cons x xs ih =>
    rw [List.mapM_cons] at h
    obtain ⟨b, hb, h⟩ := Option.bind_eq_some_iff.1 h
    obtain ⟨bs, hbs, h⟩ := Option.bind_eq_some_iff.1 h
    cases h
    rcases List.mem_cons.1 ha with rfl | ha
    · exact ⟨x, hb⟩
    · exact ih hbs ha

theorem exists_of_list? {x : Json} {as : List α} (h : list? read x = some as) {a : α} (ha : a ∈ as) :
    ∃ y, read y = some a := by
  cases x with
  | arr xs => exact exists_of_mapM h ha
  | _ => cases h

/-! ## Look-up in written records -/

/-- The fields of a record that are present. -/
def written (fs : List (Option (String × Json))) : Fields := fs.filterMap id

section
variable (k k' : String) (fs : List (Option (String × Json)))

@[simp] theorem fields?_record (names : List String) : (record fs).fields? names = some (written fs) := rfl

@[simp] theorem lookup_nil : (written []).lookup k = none := rfl

@[simp] theorem lookup_absent : (written (none :: fs)).lookup k = (written fs).lookup k := rfl

@[simp] theorem lookup_field (x : Json) :
    (written (field k' x :: fs)).lookup k = if k = k' then some x else (written fs).lookup k := by
  show ((k', x) :: written fs).lookup k = _
  rw [List.lookup_cons]
  by_cases h : k = k'
  · rw [if_pos h, beq_iff_eq.2 h]
  · rw [if_neg h, beq_eq_false_iff_ne.2 h]

@[simp] theorem lookup_optionalField (write : α → Json) (a : Option α) :
    (written (optionalField k' write a :: fs)).lookup k =
      if k = k' then (a.map write).or ((written fs).lookup k) else (written fs).lookup k := by
  cases a with
  | none => exact (ite_self _).symm
  | some a => exact lookup_field k k' fs (write a)

@[simp] theorem lookup_flagField (b : Bool) : (written (flagField k' b :: fs)).lookup k =
    if k = k' then (if b then some (.bool true) else (written fs).lookup k) else (written fs).lookup k := by
  cases b with
  | false => exact (ite_self _).symm
  | true => exact lookup_field k k' fs (.bool true)

end

/-! ## Values that are read as they were written -/

/-- An optional value that is written is read, or taken for an absent one. -/
theorem elim_written {write : β → Json} {g : β → Option α} {b : Option β}
    (h : ∀ x, b = some x → nullable read (write x) = some (g x)) :
    b.elim (some none) (nullable read ∘ write) = some (b.bind g) := by
  cases b with
  | none => rfl
  | some x => exact h x rfl

theorem list?_ofList {write : β → Json} {g : β → α} {xs : List β} (h : ∀ x ∈ xs, read (write x) = some (g x)) :
    list? read (ofList write xs) = some (xs.map g) := by
  show (xs.map write).mapM read = some (xs.map g)
  induction xs with
  | nil => rfl
  | cons x xs ih =>
    rw [List.map_cons, List.mapM_cons, h x List.mem_cons_self, ih fun y hy => h y (List.mem_cons_of_mem x hy)]
    rfl

theorem list?_ofList_self {write : α → Json} {xs : List α} (h : ∀ x ∈ xs, read (write x) = some x) :
    list? read (ofList write xs) = some xs := by
  rw [list?_ofList h, List.map_id']

@[simp] theorem string?_str (s : String) : (str s).string? = some s := rfl

@[simp] theorem bool?_bool (b : Bool) : (bool b).bool? = some b := rfl

theorem below?_ofCount {n limit : Nat} (h : n < limit) : (ofCount n).below? limit = some n := by
  have hlt : (0 : Int) ≤ n ∧ (n : Int) < limit := by omega
  exact if_pos hlt

@[simp] theorem list?_strings (xs : List String) : list? string? (ofList str xs) = some xs :=
  list?_ofList_self fun s _ => string?_str s

@[simp] theorem elim_string (s : Option String) : s.elim (some none) (nullable string? ∘ str) = some s := by
  cases s <;> rfl

@[simp] theorem elim_strings (xs : Option (List String)) :
    xs.elim (some none) (nullable (list? string?) ∘ ofList str) = some xs := by
  cases xs with
  | none => rfl
  | some xs => exact congrArg (Option.map some) (list?_strings xs)

@[simp] theorem elim_flag (b : Bool) : (if b then some (bool true) else none).elim (some false) bool? = some b := by
  cases b <;> rfl

end Json

end Erd
