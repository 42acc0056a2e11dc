import Mathlib.Data.List.Nodup
import Erd.Layout.Registry

/-!
# Histories of a registry

A registry is what became of a history of registrations: it keeps the last engine of each name, and the names in
the order in which they first came.  A replacement takes the place of the engine that it replaces, so no name
moves, and an unknown name stands for whatever the default engine has become.

    Records r history → Records (r.register e) (history ++ [e])                       (Records.register)
    Records (empty.registerAll es) es                                               (registerAll_records)
-/

namespace Erd

/-- The names of a history, each once, in the order in which they first occur. -/
structure InFirstOrder (history names : List String) : Prop where
  nodup : names.Nodup
  mem_iff : ∀ n, n ∈ names ↔ n ∈ history
  order : names.Pairwise fun m n => history.idxOf m < history.idxOf n

/-- A name that comes again stays where it is, and a new one comes last. -/
theorem InFirstOrder.concat {history names : List String} (h : InFirstOrder history names) (x : String) :
    InFirstOrder (history ++ [x]) (if x ∈ names then names else names ++ [x]) := by
  have hidx {m : String} (hm : m ∈ names) : (history ++ [x]).idxOf m = history.idxOf m :=
    List.idxOf_append_of_mem ((h.mem_iff m).1 hm)
  have horder : names.Pairwise fun m n => (history ++ [x]).idxOf m < (history ++ [x]).idxOf n := by
    refine h.order.imp_of_mem fun hm hn hlt => ?_
    rwa [hidx hm, hidx hn]
  split
  · next hx =>
    refine ⟨h.nodup, fun n => ?_, horder⟩
    rw [List.mem_append, ← h.mem_iff, List.mem_singleton]
    exact ⟨Or.inl, fun hn => hn.elim id fun hn => hn ▸ hx⟩
  · next hx =>
    have hxh : x ∉ history := fun hmem => hx ((h.mem_iff x).2 hmem)
    refine ⟨?_, fun n => ?_, ?_⟩
    · rw [List.nodup_append]
      exact ⟨h.nodup, List.nodup_singleton x, fun m hm n hn e => hx (List.mem_singleton.1 hn ▸ e ▸ hm)⟩
    · rw [List.mem_append, List.mem_append, h.mem_iff]
    · refine List.pairwise_append.2 ⟨horder, List.pairwise_singleton _ _, fun m hm n hn => ?_⟩
      rw [List.mem_singleton.1 hn, hidx hm, List.idxOf_append_of_notMem hxh, List.idxOf_cons_self, Nat.add_zero]
      exact List.idxOf_lt_length_of_mem ((h.mem_iff m).1 hm)

namespace Registry

variable {α : Type}

/-- The last engine of a name in a history of registrations. -/
def lastNamed (history : List (Engine α)) (name : String) : Option (Engine α) :=
  (history.filter (·.name == name)).getLast?

theorem lastNamed_concat (history : List (Engine α)) (e : Engine α) (name : String) :
    lastNamed (history ++ [e]) name = if e.name = name then some e else lastNamed history name := by
  by_cases he : e.name = name <;> simp [lastNamed, List.filter_append, he]

/-! ## One engine put into a list -/

theorem names_put (e : Engine α) (es : List (Engine α)) :
    (put e es).map (·.name) =
      if e.name ∈ es.map (·.name) then es.map (·.name) else es.map (·.name) ++ [e.name] := by
  induction es with
  | nil => rfl
  | cons f es ih =>
    by_cases hf : f.name = e.name
    · simp [put, hf]
    · have hf' : ¬ e.name = f.name := fun h => hf h.symm
      simp only [put, beq_iff_eq, hf, if_false, List.map_cons, ih, List.mem_cons, hf', false_or]
      split <;> rfl

/-- What has the name of the engine is found to be the engine, and nothing else changes. -/
theorem find?_put (e : Engine α) (es : List (Engine α)) (name : String) :
    (put e es).find? (·.name == name) = if e.name = name then some e else es.find? (·.name == name) := by
  induction es with
  | nil => by_cases he : e.name = name <;> simp [put, he]
  | cons f es ih =>
    by_cases hf : f.name = e.name
    · by_cases he : e.name = name <;> simp [put, hf, he]
    · by_cases hn : f.name = name
      · subst hn
        simp [put, hf, Ne.symm hf]
      · simp [put, hf, hn, ih]

/-! ## Histories -/

variable [Scalar α]

/-- The engines registered one after the other. -/
def registerAll (r : Registry α) (es : List (Engine α)) : Registry α := es.foldl register r

/-- The registry is what became of a history of registrations. -/
structure Records (r : Registry α) (history : List (Engine α)) : Prop where
  names : InFirstOrder (history.map (·.name)) r.names
  get : ∀ name, r.get? name = lastNamed history name
  resolve : ∀ request, r.resolve request =
    ((request.bind (lastNamed history)).or (lastNamed history defaultEngineName)).getD .layered

variable {r : Registry α} {history : List (Engine α)}

theorem resolve_eq (r : Registry α) (request : Option String) :
    r.resolve request = ((request.bind r.get?).or (r.get? defaultEngineName)).getD .layered := by
  unfold resolve
  cases request.bind r.get? <;> rfl

/-- What a registry resolves comes of what it gets. -/
theorem Records.of_get (hnames : InFirstOrder (history.map (·.name)) r.names)
    (hget : ∀ name, r.get? name = lastNamed history name) : Records r history := by
  refine ⟨hnames, hget, fun request => ?_⟩
  rw [resolve_eq, funext hget]

theorem records_empty : Records (empty : Registry α) [] :=
  .of_get ⟨List.nodup_nil, fun _ => Iff.rfl, .nil⟩ fun _ => rfl

theorem Records.register (h : Records r history) (e : Engine α) : Records (r.register e) (history ++ [e]) := by
  refine .of_get ?_ fun name => ?_
  · have hnames : (r.register e).names = if e.name ∈ r.names then r.names else r.names ++ [e.name] :=
      names_put e r.engines
    rw [hnames, List.map_append]
    exact h.names.concat e.name
  · have hget : (r.register e).get? name = if e.name = name then some e else r.get? name :=
      find?_put e r.engines name
    rw [hget, lastNamed_concat, h.get]

theorem Records.registerAll (h : Records r history) (es : List (Engine α)) :
    Records (r.registerAll es) (history ++ es) := by
  induction es generalizing r history with
  | nil => rwa [List.append_nil]
  | cons e es ih =>
    have := ih (h.register e)
    rwa [List.append_assoc] at this

/-- Registries that begin empty or with the built-in engines. -/
theorem registerAll_records (es : List (Engine α)) :
    Records (empty.registerAll es) es ∧ Records (standard.registerAll es) (.layered :: .grid :: es) :=
  ⟨records_empty.registerAll es, ((records_empty.register .layered).register .grid).registerAll es⟩

/-- A default engine that is replaced stays in front, and an unknown name stands for it. -/
example (step : α) :
    (standard.registerAll [.diagonal "dagre" step]).resolve (some "force") = .diagonal "dagre" step ∧
      (standard.registerAll [.diagonal "dagre" step]).names = ["dagre", "grid"] := ⟨rfl, rfl⟩

end Registry

end Erd
