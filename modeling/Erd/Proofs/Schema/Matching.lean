import Mathlib.Data.List.Nodup
import Mathlib.Data.List.Perm.Basic

/-!
# Matching things by key

Two versions of a list are compared key by key: what both have is paired, and what only one has is said to
be gone or fresh.  Where keys tell the things of each version apart, the entries are exactly those of the
keys, and the comparison the other way round has the same entries, read backwards.

    (m.entries old new).map m.name = keys of old, then the keys only new has         (names_entries)
    x ∈ m.entries old new ↔ m.Matched old new x                                        (mem_entries)
    (m.entries old new).map f is a permutation of (m.entries new old).map g           (entries_swap)
    m.entries xs xs pairs every thing with the first of its key                       (entries_self)
-/

namespace Erd

/-- How two versions of a list are compared: things by their keys, entries by their names. -/
structure Comparison (ι β : Type) where
  key : ι → String
  name : β → String
  /-- The entry of an old thing and a new one of the same key. -/
  both : ι → ι → β
  gone : ι → β
  fresh : ι → β
  name_both : ∀ {a b}, key a = key b → name (both a b) = key a
  name_gone : ∀ a, name (gone a) = key a
  name_fresh : ∀ b, name (fresh b) = key b

namespace Comparison

variable {ι β γ : Type} (m : Comparison ι β) {old new : List ι}

def keys (xs : List ι) : List String := xs.map m.key

/-- The first thing of a key. -/
def first? (xs : List ι) (key : String) : Option ι := xs.find? (m.key · == key)

/-- The entry of an old thing. -/
def entryIn (new : List ι) (a : ι) : β := (m.first? new (m.key a)).elim (m.gone a) (m.both a)

/-- The entries of the old things in order, then those of the things that only the new version has. -/
def entries (old new : List ι) : List β :=
  old.map (m.entryIn new) ++ (new.filter fun b => (m.first? old (m.key b)).isNone).map m.fresh

/-- What is said of a key by one version or both. -/
inductive Matched (old new : List ι) : β → Prop
  | both {a b : ι} (ha : a ∈ old) (hb : b ∈ new) (hkey : m.key a = m.key b) : Matched old new (m.both a b)
  | gone {a : ι} (ha : a ∈ old) (hnew : m.key a ∉ m.keys new) : Matched old new (m.gone a)
  | fresh {b : ι} (hb : b ∈ new) (hold : m.key b ∉ m.keys old) : Matched old new (m.fresh b)

/-! ## Things of a key -/

theorem mem_keys {xs : List ι} {key : String} : key ∈ m.keys xs ↔ ∃ a ∈ xs, m.key a = key := List.mem_map

theorem first_eq_none {xs : List ι} {key : String} : m.first? xs key = none ↔ key ∉ m.keys xs := by
  unfold first?
  rw [List.find?_eq_none, mem_keys]
  simp

theorem mem_of_first {xs : List ι} {key : String} {a : ι} (h : m.first? xs key = some a) :
    a ∈ xs ∧ m.key a = key := ⟨List.mem_of_find?_eq_some h, by simpa using List.find?_some h⟩

/-- Where keys are distinct, the first thing of a key is the only one. -/
theorem first_eq_some {xs : List ι} (hxs : (m.keys xs).Nodup) {key : String} {a : ι} :
    m.first? xs key = some a ↔ a ∈ xs ∧ m.key a = key := by
  refine ⟨m.mem_of_first, ?_⟩
  rintro ⟨ha, hkey⟩
  cases hfirst : m.first? xs key with
  | none => exact absurd (m.mem_keys.2 ⟨a, ha, hkey⟩) (m.first_eq_none.1 hfirst)
  | some b =>
    obtain ⟨hb, hb'⟩ := m.mem_of_first hfirst
    rw [List.inj_on_of_nodup_map hxs hb ha (hb'.trans hkey.symm)]

theorem mem_keys_of_mem {xs : List ι} {a : ι} (h : a ∈ xs) : m.key a ∈ m.keys xs := List.mem_map_of_mem h

/-! ## Names of entries -/

theorem name_entryIn (new : List ι) (a : ι) : m.name (m.entryIn new a) = m.key a := by
  unfold entryIn
  cases hfirst : m.first? new (m.key a) with
  | none => exact m.name_gone a
  | some b => exact m.name_both (m.mem_of_first hfirst).2.symm

/-- Every key of either version has an entry: those of the old version first, in its order. -/
theorem names_entries (old new : List ι) :
    (m.entries old new).map m.name = m.keys old ++ (m.keys new).filter (· ∉ m.keys old) := by
  have hold : (old.map (m.entryIn new)).map m.name = m.keys old := by
    rw [List.map_map]
    exact List.map_congr_left fun a _ => m.name_entryIn new a
  have hfresh (b : ι) : (m.first? old (m.key b)).isNone = decide (m.key b ∉ m.keys old) := by
    rw [Bool.eq_iff_iff, Option.isNone_iff_eq_none, first_eq_none, decide_eq_true_eq]
  have hnew : ((new.filter fun b => (m.first? old (m.key b)).isNone).map m.fresh).map m.name =
      (m.keys new).filter (· ∉ m.keys old) := by
    have hkeys : m.keys new = new.map m.key := rfl
    rw [List.map_map, List.filter_congr fun b _ => hfresh b, hkeys, List.filter_map]
    exact List.map_congr_left fun b _ => m.name_fresh b
  unfold entries
  rw [List.map_append, hold, hnew]

theorem nodup_names (hold : (m.keys old).Nodup) (hnew : (m.keys new).Nodup) :
    ((m.entries old new).map m.name).Nodup := by
  rw [names_entries]
  refine hold.append (hnew.filter _) ?_
  intro k hk hk'
  simpa [hk] using List.of_mem_filter hk'

/-! ## Entries -/

/-- The entries are those of the keys, where the new keys are distinct. -/
theorem mem_entries (hnew : (m.keys new).Nodup) {x : β} : x ∈ m.entries old new ↔ m.Matched old new x := by
  unfold entries
  rw [List.mem_append, List.mem_map, List.mem_map]
  constructor
  · rintro (⟨a, ha, rfl⟩ | ⟨b, hb, rfl⟩)
    · unfold entryIn
      cases hfirst : m.first? new (m.key a) with
      | none => exact .gone ha (m.first_eq_none.1 hfirst)
      | some b =>
        obtain ⟨hmem, hkey⟩ := m.mem_of_first hfirst
        exact .both ha hmem hkey.symm
    · obtain ⟨hmem, hnone⟩ := List.mem_filter.1 hb
      exact .fresh hmem (m.first_eq_none.1 (Option.isNone_iff_eq_none.1 hnone))
  · rintro (⟨ha, hb, hkey⟩ | ⟨ha, hnone⟩ | ⟨hb, hnone⟩)
    · refine Or.inl ⟨_, ha, ?_⟩
      rw [entryIn, (m.first_eq_some hnew).2 ⟨hb, hkey.symm⟩, Option.elim_some]
    · refine Or.inl ⟨_, ha, ?_⟩
      rw [entryIn, m.first_eq_none.2 hnone, Option.elim_none]
    · refine Or.inr ⟨_, List.mem_filter.2 ⟨hb, ?_⟩, rfl⟩
      rw [m.first_eq_none.2 hnone]
      rfl

/-- A property of pairs alone holds of all entries exactly if the versions have the same keys and it holds of the
pairs of each key. -/
theorem forall_entries (hnew : (m.keys new).Nodup) {p : β → Prop} {q : ι → ι → Prop}
    (hboth : ∀ a ∈ old, ∀ b ∈ new, m.key a = m.key b → (p (m.both a b) ↔ q a b)) (hgone : ∀ a, ¬p (m.gone a))
    (hfresh : ∀ b, ¬p (m.fresh b)) :
    (∀ x ∈ m.entries old new, p x) ↔
      (∀ k, k ∈ m.keys old ↔ k ∈ m.keys new) ∧ ∀ a ∈ old, ∀ b ∈ new, m.key a = m.key b → q a b := by
  simp only [m.mem_entries hnew]
  constructor
  · intro h
    refine ⟨fun k => ⟨?_, ?_⟩, fun a ha b hb hkey => (hboth a ha b hb hkey).1 (h _ (.both ha hb hkey))⟩
    · intro hk
      obtain ⟨a, ha, rfl⟩ := m.mem_keys.1 hk
      exact Classical.byContradiction fun hnone => hgone a (h _ (.gone ha hnone))
    · intro hk
      obtain ⟨b, hb, rfl⟩ := m.mem_keys.1 hk
      exact Classical.byContradiction fun hnone => hfresh b (h _ (.fresh hb hnone))
  · rintro ⟨hkeys, hpairs⟩ x (⟨ha, hb, hkey⟩ | ⟨ha, hnone⟩ | ⟨hb, hnone⟩)
    · exact (hboth _ ha _ hb hkey).2 (hpairs _ ha _ hb hkey)
    · exact absurd ((hkeys _).1 (m.mem_keys_of_mem ha)) hnone
    · exact absurd ((hkeys _).2 (m.mem_keys_of_mem hb)) hnone

/-! ## The comparison the other way round -/

/-- Entries that `f` reads as `g` reads those of the comparison the other way round are the same, in any order. -/
theorem entries_swap (hold : (m.keys old).Nodup) (hnew : (m.keys new).Nodup) {f g : β → γ} {n : γ → String}
    (hf : ∀ x, n (f x) = m.name x) (hg : ∀ x, n (g x) = m.name x)
    (hboth : ∀ a ∈ old, ∀ b ∈ new, m.key a = m.key b → f (m.both a b) = g (m.both b a))
    (hgone : ∀ a, f (m.gone a) = g (m.fresh a)) (hfresh : ∀ b, f (m.fresh b) = g (m.gone b)) :
    ((m.entries old new).map f).Perm ((m.entries new old).map g) := by
  have hnodup {xs : List β} {f : β → γ} (hf : ∀ x, n (f x) = m.name x) (h : (xs.map m.name).Nodup) :
      (xs.map f).Nodup := by
    have hnames : (xs.map f).map n = xs.map m.name := by
      rw [List.map_map]
      exact List.map_congr_left fun x _ => hf x
    exact List.Nodup.of_map n (hnames ▸ h)
  rw [List.perm_ext_iff_of_nodup (hnodup hf (m.nodup_names hold hnew)) (hnodup hg (m.nodup_names hnew hold))]
  intro y
  simp only [List.mem_map, m.mem_entries hold, m.mem_entries hnew]
  constructor
  · rintro ⟨x, ⟨ha, hb, hkey⟩ | ⟨ha, hnone⟩ | ⟨hb, hnone⟩, rfl⟩
    · exact ⟨_, .both hb ha hkey.symm, (hboth _ ha _ hb hkey).symm⟩
    · exact ⟨_, .fresh ha hnone, (hgone _).symm⟩
    · exact ⟨_, .gone hb hnone, (hfresh _).symm⟩
  · rintro ⟨x, ⟨hb, ha, hkey⟩ | ⟨hb, hnone⟩ | ⟨ha, hnone⟩, rfl⟩
    · exact ⟨_, .both ha hb hkey.symm, hboth _ ha _ hb hkey.symm⟩
    · exact ⟨_, .fresh hb hnone, hfresh _⟩
    · exact ⟨_, .gone ha hnone, hgone _⟩

/-! ## A list compared with itself -/

/-- Every thing is paired with the first of its key, and nothing is fresh. -/
theorem entries_self (xs : List ι) :
    m.entries xs xs = xs.map fun a => m.both a ((m.first? xs (m.key a)).getD a) := by
  have hfresh : (xs.filter fun b => (m.first? xs (m.key b)).isNone) = [] := by
    rw [List.filter_eq_nil_iff]
    intro b hb hnone
    exact m.first_eq_none.1 (Option.isNone_iff_eq_none.1 hnone) (m.mem_keys_of_mem hb)
  unfold entries
  rw [hfresh, List.map_nil, List.append_nil]
  refine List.map_congr_left fun a ha => ?_
  unfold entryIn
  cases hfirst : m.first? xs (m.key a) with
  | none => exact absurd (m.mem_keys_of_mem ha) (m.first_eq_none.1 hfirst)
  | some b => rfl

/-- Where keys are distinct, every thing is paired with itself. -/
theorem entries_self_of_nodup {xs : List ι} (h : (m.keys xs).Nodup) :
    m.entries xs xs = xs.map fun a => m.both a a := by
  rw [entries_self]
  refine List.map_congr_left fun a ha => ?_
  rw [(m.first_eq_some h).2 ⟨ha, rfl⟩]
  rfl

end Comparison

end Erd
