import Mathlib.Data.Finset.Card
import Mathlib.Data.Finset.Range
import Mathlib.Data.List.Nodup
import Mathlib.Logic.Relation
import Erd.Layering.Ranking

/-!
# Cycles and how they are broken

A depth-first search finishes a box behind all boxes that its edges lead to, except those whose search is
still going on: such an edge closes a cycle.  With these turned round, every edge leads from a box that is
finished later to one that is finished earlier.

    s.Sound count next → (visit next depth u s).Sound count next               (visit_spec)
    (u, v) ∈ (run count next).closing → Reaches next v u                        (closing_run)
    e ∈ forward count pairs → e.2 is finished before e.1                      (sublist_forward)
-/

open Relation (ReflTransGen)

namespace Erd

/-- One box leads to another along some edges, or is it. -/
def Reaches (next : Nat → List Nat) : Nat → Nat → Prop := ReflTransGen fun u v => v ∈ next u

/-- Edges lead to boxes, and from none to itself. -/
structure Loopless (count : Nat) (next : Nat → List Nat) : Prop where
  bounded : ∀ u, ∀ v ∈ next u, v < count
  ne : ∀ u, ∀ v ∈ next u, v ≠ u

namespace Search

variable {count : Nat} {next : Nat → List Nat}

/-! ## Invariants -/

/-- What holds of a search at any time.  Boxes are finished one behind the other, the last one in front. -/
structure Sound (count : Nat) (next : Nat → List Nat) (s : Search) : Prop where
  bounded : ∀ u ∈ s.discovered, u < count
  discovered : ∀ u ∈ s.finished, u ∈ s.discovered
  nodup : s.finished.Nodup
  /-- An edge that closes no cycle leads to a box that is finished earlier. -/
  open_edge : ∀ u ∈ s.finished, ∀ v ∈ next u, (u, v) ∉ s.closing → [u, v].Sublist s.finished
  /-- An edge that closes a cycle leads to a box that is finished later. -/
  closing_edge : ∀ u v, (u, v) ∈ s.closing → u ∈ s.finished → v ∈ s.finished → [v, u].Sublist s.finished
  cycle : ∀ u v, (u, v) ∈ s.closing → v ∈ next u ∧ Reaches next v u
  known : ∀ u v, (u, v) ∈ s.closing → u ∈ s.discovered ∧ v ∈ s.discovered

/-- What a search that goes on leaves as it was: all that concerns the boxes discovered before.  Boxes that
are new are finished, except the active ones. -/
structure Grows (active : List Nat) (s s' : Search) : Prop where
  discovered : ∀ u ∈ s.discovered, u ∈ s'.discovered
  finished : ∀ u ∈ s.discovered, (u ∈ s'.finished ↔ u ∈ s.finished)
  closing : ∀ u ∈ s.discovered, ∀ v, ((u, v) ∈ s'.closing ↔ (u, v) ∈ s.closing)
  fresh : ∀ u ∈ s'.discovered, u ∈ s.discovered ∨ u ∈ active ∨ u ∈ s'.finished

theorem Grows.refl (active : List Nat) (s : Search) : Grows active s s :=
  ⟨fun _ hu => hu, fun _ _ => Iff.rfl, fun _ _ _ => Iff.rfl, fun _ hu => Or.inl hu⟩

theorem Grows.trans {active : List Nat} {s s' s'' : Search} (h : Grows active s s') (h' : Grows [] s' s'') :
    Grows active s s'' := by
  refine ⟨fun u hu => h'.discovered u (h.discovered u hu), fun u hu => ?_, fun u hu v => ?_, fun u hu => ?_⟩
  · rw [h'.finished u (h.discovered u hu), h.finished u hu]
  · rw [h'.closing u (h.discovered u hu), h.closing u hu]
  · rcases h'.fresh u hu with hu' | hu' | hu'
    · rcases h.fresh u hu' with hu'' | hu'' | hu''
      · exact Or.inl hu''
      · exact Or.inr (Or.inl hu'')
      · exact Or.inr (Or.inr ((h'.finished u hu').2 hu''))
    · cases hu'
    · exact Or.inr (Or.inr hu')

/-- The boxes whose search is going on lead to a box. -/
def Leading (next : Nat → List Nat) (s : Search) (u : Nat) : Prop :=
  ∀ g ∈ s.discovered, g ∉ s.finished → Reaches next g u

/-- The boxes that are not discovered yet. -/
def hidden (count : Nat) (s : Search) : Finset Nat := (Finset.range count).filter (· ∉ s.discovered)

theorem hidden_subset {s s' : Search} (h : ∀ u ∈ s.discovered, u ∈ s'.discovered) :
    hidden count s' ⊆ hidden count s := by
  intro u hu
  simp only [hidden, Finset.mem_filter] at hu ⊢
  exact ⟨hu.1, fun hs => hu.2 (h u hs)⟩

/-! ## The search from one box -/

/-- The state in which the edges of a box are followed. -/
def enter (s : Search) (u : Nat) : Search := { s with discovered := u :: s.discovered }

/-- The state with a box finished. -/
def leave (s : Search) (u : Nat) : Search := { s with finished := u :: s.finished }

/-- The search along one edge of a box. -/
def follow (next : Nat → List Nat) (depth u : Nat) (s : Search) (v : Nat) : Search :=
  if !s.discovered.contains v then visit next depth v s
  else if s.finished.contains v then s
  else { s with closing := (u, v) :: s.closing }

theorem visit_known {depth u : Nat} {s : Search} (h : u ∈ s.discovered) : visit next depth u s = s := by
  cases depth with
  | zero => rfl
  | succ depth => simp [visit, h]

theorem visit_new {depth u : Nat} {s : Search} (h : u ∉ s.discovered) :
    visit next (depth + 1) u s = ((next u).foldl (follow next depth u) (enter s u)).leave u := by
  rw [visit, if_neg (mt List.contains_iff_mem.1 h)]
  rfl

theorem card_hidden_enter {u : Nat} {s : Search} (hu : u < count) (h : u ∉ s.discovered) :
    (hidden count (enter s u)).card < (hidden count s).card := by
  refine Finset.card_lt_card ⟨hidden_subset fun v hv => List.mem_cons_of_mem u hv, fun hsub => ?_⟩
  have hmem : u ∈ hidden count s := Finset.mem_filter.2 ⟨Finset.mem_range.2 hu, h⟩
  exact (Finset.mem_filter.1 (hsub hmem)).2 List.mem_cons_self

/-- What holds while the edges of a box are followed, those to `done` behind and the others still to come. -/
structure Following (count : Nat) (next : Nat → List Nat) (s₀ : Search) (u : Nat) (done : List Nat) (s : Search) :
    Prop where
  sound : Sound count next s
  fresh : u ∉ s₀.discovered
  grows : Grows [u] s₀ s
  active : u ∈ s.discovered ∧ u ∉ s.finished
  leading : Leading next s u
  finished : ∀ v ∈ done, (u, v) ∉ s.closing → v ∈ s.finished
  closing : ∀ v, (u, v) ∈ s.closing → v ∉ s.finished

theorem following_enter {s : Search} {u : Nat} (hs : Sound count next s) (hu : u < count)
    (h : u ∉ s.discovered) (hl : Leading next s u) : Following count next s u [] (enter s u) where
  sound :=
    { bounded := by
        intro v hv
        rcases List.mem_cons.1 hv with rfl | hv
        · exact hu
        · exact hs.bounded v hv
      discovered := fun v hv => List.mem_cons_of_mem u (hs.discovered v hv)
      nodup := hs.nodup
      open_edge := hs.open_edge
      closing_edge := hs.closing_edge
      cycle := hs.cycle
      known := fun v w hv => ⟨List.mem_cons_of_mem u (hs.known v w hv).1, List.mem_cons_of_mem u (hs.known v w hv).2⟩ }
  fresh := h
  grows := by
    refine ⟨fun v hv => List.mem_cons_of_mem u hv, fun v hv => Iff.rfl, fun v hv w => Iff.rfl, fun v hv => ?_⟩
    rcases List.mem_cons.1 hv with rfl | hv
    · exact Or.inr (Or.inl List.mem_cons_self)
    · exact Or.inl hv
  active := ⟨List.mem_cons_self, fun hf => h (hs.discovered u hf)⟩
  leading := by
    intro g hg hf
    rcases List.mem_cons.1 hg with rfl | hg
    · exact .refl
    · exact hl g hg hf
  finished := nofun
  closing := fun v hv => absurd (hs.known u v hv).1 h

/-- What a search from one box makes of a state. -/
structure Visited (count : Nat) (next : Nat → List Nat) (u : Nat) (s s' : Search) : Prop where
  sound : Sound count next s'
  grows : Grows [] s s'
  known : u ∈ s'.discovered

theorem Visited.finished {u : Nat} {s s' : Search} (h : Visited count next u s s') (hu : u ∉ s.discovered) :
    u ∈ s'.finished := by
  rcases h.grows.fresh u h.known with hd | ha | hf
  · exact absurd hd hu
  · cases ha
  · exact hf

/-- An edge back to a box whose search is going on. -/
theorem Following.close {u v : Nat} {done : List Nat} {s₀ s : Search} (hf : Following count next s₀ u done s)
    (hv : v ∈ next u) (hd : v ∈ s.discovered) (hfin : v ∉ s.finished) :
    Following count next s₀ u (v :: done) { s with closing := (u, v) :: s.closing } where
  sound :=
    { bounded := hf.sound.bounded
      discovered := hf.sound.discovered
      nodup := hf.sound.nodup
      open_edge := fun x hx y hy hopen => hf.sound.open_edge x hx y hy (mt (List.mem_cons_of_mem _) hopen)
      closing_edge := by
        intro x y hxy hx hy
        rcases List.mem_cons.1 hxy with heq | hxy
        · cases heq
          exact absurd hx hf.active.2
        · exact hf.sound.closing_edge x y hxy hx hy
      cycle := by
        intro x y hxy
        rcases List.mem_cons.1 hxy with heq | hxy
        · cases heq
          exact ⟨hv, hf.leading v hd hfin⟩
        · exact hf.sound.cycle x y hxy
      known := by
        intro x y hxy
        rcases List.mem_cons.1 hxy with heq | hxy
        · cases heq
          exact ⟨hf.active.1, hd⟩
        · exact hf.sound.known x y hxy }
  fresh := hf.fresh
  grows := by
    refine ⟨hf.grows.discovered, hf.grows.finished, fun x hx y => ?_, hf.grows.fresh⟩
    rw [← hf.grows.closing x hx y, List.mem_cons, or_iff_right]
    intro heq
    cases heq
    exact hf.fresh hx
  active := hf.active
  leading := hf.leading
  finished := by
    intro w hw hopen
    rcases List.mem_cons.1 hw with rfl | hw
    · exact absurd List.mem_cons_self hopen
    · exact hf.finished w hw (mt (List.mem_cons_of_mem _) hopen)
  closing := by
    intro w hw
    rcases List.mem_cons.1 hw with heq | hw
    · cases heq
      exact hfin
    · exact hf.closing w hw

/-- An edge to a new box, from which the search goes on first. -/
theorem Following.enter {u v : Nat} {done : List Nat} {s₀ s s' : Search} (hf : Following count next s₀ u done s)
    (h : Visited count next v s s') (hd : v ∉ s.discovered) : Following count next s₀ u (v :: done) s' where
  sound := h.sound
  fresh := hf.fresh
  grows := hf.grows.trans h.grows
  active := ⟨h.grows.discovered u hf.active.1, mt (h.grows.finished u hf.active.1).1 hf.active.2⟩
  leading := by
    intro g hg hgf
    rcases h.grows.fresh g hg with hg' | hg' | hg'
    · exact hf.leading g hg' (mt (h.grows.finished g hg').2 hgf)
    · cases hg'
    · exact absurd hg' hgf
  finished := by
    intro w hw hopen
    rcases List.mem_cons.1 hw with rfl | hw
    · exact h.finished hd
    · have hwf := hf.finished w hw (mt (h.grows.closing u hf.active.1 w).2 hopen)
      exact (h.grows.finished w (hf.sound.discovered w hwf)).2 hwf
  closing := by
    intro w hw
    have hw' := (h.grows.closing u hf.active.1 w).1 hw
    exact mt (h.grows.finished w (hf.sound.known u w hw').2).1 (hf.closing w hw')

/-- Following one more edge. -/
theorem Following.follow {depth u v : Nat} {done : List Nat} {s₀ s : Search}
    (hf : Following count next s₀ u done s) (hv : v ∈ next u)
    (hvisit : v ∉ s.discovered → Leading next s v → Visited count next v s (visit next depth v s)) :
    Following count next s₀ u (v :: done) (follow next depth u s v) := by
  unfold Search.follow
  by_cases hd : v ∈ s.discovered
  · rw [if_neg (by simpa using hd)]
    by_cases hfin : v ∈ s.finished
    · -- an edge to a finished box
      rw [if_pos (List.contains_iff_mem.2 hfin)]
      refine ⟨hf.sound, hf.fresh, hf.grows, hf.active, hf.leading, ?_, hf.closing⟩
      intro w hw hopen
      rcases List.mem_cons.1 hw with rfl | hw
      · exact hfin
      · exact hf.finished w hw hopen
    · -- an edge back to a box whose search is going on
      rw [if_neg (mt List.contains_iff_mem.1 hfin)]
      exact hf.close hv hd hfin
  · -- an edge to a new box
    rw [if_pos (by simpa using hd)]
    exact hf.enter (hvisit hd fun g hg hgf => (hf.leading g hg hgf).tail hv) hd

/-- The claim on searches of a depth that suffices for the boxes not discovered yet. -/
def Spec (count : Nat) (next : Nat → List Nat) (depth : Nat) : Prop :=
  ∀ u s, u < count → Sound count next s → Leading next s u → (hidden count s).card ≤ depth →
    Visited count next u s (visit next depth u s)

theorem Following.foldl (hn : Loopless count next) {depth u : Nat} {vs done : List Nat} {s₀ s : Search}
    (hspec : Spec count next depth) (hdepth : (hidden count (Search.enter s₀ u)).card ≤ depth)
    (hf : Following count next s₀ u done s) (hvs : ∀ v ∈ vs, v ∈ next u) :
    Following count next s₀ u (vs.reverse ++ done) (vs.foldl (Search.follow next depth u) s) := by
  induction vs generalizing s done with
  | nil => exact hf
  | cons v vs ih =>
    have hv := hvs v List.mem_cons_self
    have hsub : hidden count s ⊆ hidden count (Search.enter s₀ u) := by
      refine hidden_subset fun w hw => ?_
      rcases List.mem_cons.1 hw with rfl | hw
      · exact hf.active.1
      · exact hf.grows.discovered w hw
    have hvisit : v ∉ s.discovered → Leading next s v → Visited count next v s (visit next depth v s) :=
      fun _ hl => hspec v s (hn.bounded u v hv) hf.sound hl ((Finset.card_le_card hsub).trans hdepth)
    have hrest := ih (hf.follow hv hvisit) fun w hw => hvs w (List.mem_cons_of_mem v hw)
    rw [List.reverse_cons, List.append_assoc]
    exact hrest

/-- A box is finished when all its edges are followed. -/
theorem Following.leave (hn : Loopless count next) {u : Nat} {done : List Nat} {s₀ s : Search}
    (hf : Following count next s₀ u done s) (hdone : ∀ v ∈ next u, v ∈ done) :
    Visited count next u s₀ (s.leave u) where
  sound :=
    { bounded := hf.sound.bounded
      discovered := by
        intro x hx
        rcases List.mem_cons.1 hx with rfl | hx
        · exact hf.active.1
        · exact hf.sound.discovered x hx
      nodup := List.nodup_cons.2 ⟨hf.active.2, hf.sound.nodup⟩
      open_edge := by
        intro x hx y hy hopen
        rcases List.mem_cons.1 hx with rfl | hx
        · exact (List.singleton_sublist.2 (hf.finished y (hdone y hy) hopen)).cons_cons x
        · exact (hf.sound.open_edge x hx y hy hopen).cons u
      closing_edge := by
        intro x y hxy hx hy
        have hne := hn.ne x y (hf.sound.cycle x y hxy).1
        rcases List.mem_cons.1 hx with rfl | hxf
        · rcases List.mem_cons.1 hy with rfl | hyf
          · exact absurd rfl hne
          · exact absurd hyf (hf.closing y hxy)
        · rcases List.mem_cons.1 hy with rfl | hyf
          · exact (List.singleton_sublist.2 hxf).cons_cons y
          · exact (hf.sound.closing_edge x y hxy hxf hyf).cons u
      cycle := hf.sound.cycle
      known := hf.sound.known }
  grows := by
    refine ⟨hf.grows.discovered, fun x hx => ?_, hf.grows.closing, fun x hx => ?_⟩
    · have hne : x ≠ u := fun h => hf.fresh (h ▸ hx)
      rw [← hf.grows.finished x hx]
      exact List.mem_cons.trans (or_iff_right hne)
    · rcases hf.grows.fresh x hx with h | h | h
      · exact Or.inl h
      · exact Or.inr (Or.inr (List.mem_singleton.1 h ▸ List.mem_cons_self))
      · exact Or.inr (Or.inr (List.mem_cons_of_mem u h))
  known := hf.active.1

theorem visit_spec (hn : Loopless count next) (depth : Nat) : Spec count next depth := by
  induction depth with
  | zero =>
    intro u s hu hs _ hdepth
    have hknown : u ∈ s.discovered := by
      by_contra h
      have hmem : u ∈ hidden count s := Finset.mem_filter.2 ⟨Finset.mem_range.2 hu, h⟩
      rw [Finset.card_eq_zero.1 (Nat.le_zero.1 hdepth)] at hmem
      exact absurd hmem (Finset.notMem_empty u)
    exact ⟨hs, .refl [] s, hknown⟩
  | succ depth ih =>
    intro u s hu hs hl hdepth
    by_cases h : u ∈ s.discovered
    · rw [visit_known h]
      exact ⟨hs, .refl [] s, h⟩
    · have hlt := card_hidden_enter hu h
      rw [visit_new h]
      refine ((following_enter hs hu h hl).foldl hn ih (by omega) fun _ hv => hv).leave hn fun v hv => ?_
      exact List.mem_append_left [] (List.mem_reverse.2 hv)

/-! ## The whole search -/

/-- No search from a box is going on. -/
def Settled (s : Search) : Prop := ∀ u ∈ s.discovered, u ∈ s.finished

theorem foldl_visit (hn : Loopless count next) {us : List Nat} (hus : ∀ u ∈ us, u < count) {s : Search}
    (hs : Sound count next s) (hset : s.Settled) :
    let s' := us.foldl (fun s u => visit next count u s) s
    Sound count next s' ∧ s'.Settled ∧ (∀ u ∈ s.discovered, u ∈ s'.discovered) ∧ ∀ u ∈ us, u ∈ s'.discovered := by
  induction us generalizing s with
  | nil => exact ⟨hs, hset, fun _ hu => hu, nofun⟩
  | cons u us ih =>
    have hl : Leading next s u := fun g hg hgf => absurd (hset g hg) hgf
    have hcard : (hidden count s).card ≤ count :=
      (Finset.card_filter_le _ _).trans (Finset.card_range count).le
    have hvis := visit_spec hn count u s (hus u List.mem_cons_self) hs hl hcard
    have hset' : (visit next count u s).Settled := by
      intro v hv
      rcases hvis.grows.fresh v hv with h | h | h
      · exact (hvis.grows.finished v h).2 (hset v h)
      · cases h
      · exact h
    obtain ⟨h1, h2, h3, h4⟩ := ih (fun v hv => hus v (List.mem_cons_of_mem u hv)) hvis.sound hset'
    refine ⟨h1, h2, fun v hv => h3 v (hvis.grows.discovered v hv), fun v hv => ?_⟩
    rcases List.mem_cons.1 hv with rfl | hv
    · exact h3 v hvis.known
    · exact h4 v hv

theorem sound_start : Sound count next {} :=
  ⟨nofun, nofun, .nil, nofun, nofun, nofun, nofun⟩

/-- The search ends with every box finished. -/
theorem run_spec (hn : Loopless count next) :
    Sound count next (run count next) ∧ ∀ u < count, u ∈ (run count next).finished := by
  obtain ⟨h1, h2, -, h4⟩ := foldl_visit hn (fun u hu => List.mem_range.1 hu) sound_start nofun
  exact ⟨h1, fun u hu => h2 u (h4 u (List.mem_range.2 hu))⟩

end Search

/-! ## Edges turned round -/

section
variable {count : Nat} {pairs : List (Nat × Nat)}

theorem mem_successors {u v : Nat} : v ∈ successors pairs u ↔ (u, v) ∈ pairs := by
  simp [successors]

/-- Pairs of different boxes. -/
def Proper (count : Nat) (pairs : List (Nat × Nat)) : Prop := ∀ p ∈ pairs, p.1 < count ∧ p.2 < count ∧ p.1 ≠ p.2

theorem Proper.loopless (h : Proper count pairs) : Loopless count (successors pairs) :=
  ⟨fun u v hv => (h (u, v) (mem_successors.1 hv)).2.1, fun u v hv => (h (u, v) (mem_successors.1 hv)).2.2.symm⟩

/-- An edge that is not turned round is one of the diagram's; the others close cycles. -/
theorem mem_forward (h : Proper count pairs) {u v : Nat} (hp : (u, v) ∈ pairs) :
    (u, v) ∈ forward count pairs ∨ (v, u) ∈ forward count pairs ∧ Reaches (successors pairs) v u := by
  by_cases hc : (u, v) ∈ (Search.run count (successors pairs)).closing
  · refine Or.inr ⟨List.mem_map.2 ⟨(u, v), hp, if_pos (List.contains_iff_mem.2 hc)⟩, ?_⟩
    exact ((Search.run_spec h.loopless).1.cycle u v hc).2
  · exact Or.inl (List.mem_map.2 ⟨(u, v), hp, if_neg (mt List.contains_iff_mem.1 hc)⟩)

/-- Every edge leads to a box that is finished before the one it comes from. -/
theorem sublist_forward (h : Proper count pairs) {e : Nat × Nat} (he : e ∈ forward count pairs) :
    [e.1, e.2].Sublist (Search.run count (successors pairs)).finished := by
  obtain ⟨hs, hall⟩ := Search.run_spec h.loopless
  obtain ⟨⟨u, v⟩, hp, rfl⟩ := List.mem_map.1 he
  obtain ⟨hu, hv, -⟩ := h (u, v) hp
  dsimp only
  by_cases hc : (u, v) ∈ (Search.run count (successors pairs)).closing
  · rw [if_pos (List.contains_iff_mem.2 hc)]
    exact hs.closing_edge u v hc (hall u hu) (hall v hv)
  · rw [if_neg (mt List.contains_iff_mem.1 hc)]
    exact hs.open_edge u (hall u hu) v (mem_successors.2 hp) hc

end

end Erd
