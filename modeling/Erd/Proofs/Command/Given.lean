import Erd.Command.Arguments

/-!
# What stands in the arguments

Whatever a level finds given stands in the arguments: each operand as an argument of its own, and each flag as
a long switch or as a letter behind one dash.  So a file is only formatted in place by an argument list with
`fmt`, the path and a switch that asks for writing.

    GivenBy l g before → l.read g w args = .ok (g', sub) → GivenBy l g' (before ++ args)          (GivenBy.read)
-/

namespace Erd.Command

/-- An argument that may set a flag, as a long switch or by a letter behind one dash. -/
def Level.Mentions (l : Level) (arg flag : String) : Prop :=
  arg.toList = '-' :: '-' :: flag.toList ∨
    ∃ cs, arg.toList = '-' :: cs ∧ ∃ s ∈ l.switches, s.name = flag ∧ ∃ c ∈ cs, s.letter = some c

/-- What was given at a level stands in the arguments. -/
structure GivenBy (l : Level) (g : Given) (args : List String) : Prop where
  operands : ∀ x ∈ g.operands, x ∈ args
  flags : ∀ f ∈ g.flags, ∃ arg ∈ args, l.Mentions arg f

namespace GivenBy

variable {l : Level} {g g' : Given} {args rest : List String} {arg : String} {w w' : Waiting}

theorem setFlag {f : String} (h : GivenBy l g args) (harg : arg ∈ args) (hm : l.Mentions arg f)
    (e : g.setFlag f = .ok g') : GivenBy l g' args := by
  unfold Given.setFlag at e
  split at e
  · cases e
  · cases e
    refine ⟨h.operands, fun f' hf' => ?_⟩
    rcases List.mem_cons.1 hf' with rfl | hf'
    · exact ⟨arg, harg, hm⟩
    · exact h.flags f' hf'

theorem setValue {name value : String} {accepts : String → Bool} (h : GivenBy l g args)
    (e : g.setValue name accepts value = .ok g') : GivenBy l g' args := by
  unfold Given.setValue at e
  split at e
  · cases e
  · cases e
    exact ⟨h.operands, h.flags⟩

theorem addOperand (h : GivenBy l g args) (harg : arg ∈ args) (e : g.addOperand l arg = .ok g') :
    GivenBy l g' args := by
  unfold Given.addOperand at e
  split at e
  · cases e
    refine ⟨fun x hx => ?_, h.flags⟩
    rcases List.mem_append.1 hx with hx | hx
    · exact h.operands x hx
    · rwa [List.mem_singleton.1 hx]
  · cases e

theorem operandsOnly (h : GivenBy l g args) (hsub : ∀ x ∈ rest, x ∈ args) (e : l.operandsOnly g rest = .ok g') :
    GivenBy l g' args := by
  induction rest generalizing g with
  | nil =>
    cases e
    exact h
  | cons x rest ih =>
    unfold Level.operandsOnly at e
    split at e
    · next g₁ hx =>
      exact ih (h.addOperand (hsub x List.mem_cons_self) hx) (fun y hy => hsub y (List.mem_cons_of_mem _ hy)) e
    · cases e

/-- Letters behind others of the same argument. -/
theorem letters {cs : List Char} (h : GivenBy l g args) (before : List Char) (harg : arg ∈ args)
    (hcs : arg.toList = '-' :: (before ++ cs)) (e : l.letters g cs = .ok (g', w')) : GivenBy l g' args := by
  induction cs generalizing before g with
  | nil =>
    cases e
    exact h
  | cons c cs ih =>
    have hbehind : arg.toList = '-' :: ((before ++ [c]) ++ cs) := by rw [hcs, List.append_assoc]; rfl
    unfold Level.letters at e
    split at e
    · cases e
    · next s hs =>
      split at e
      · cases e
      · exact ih h _ hbehind e
      · split at e
        · next g₁ hf =>
          have hletter : s.letter = some c := by simpa using List.find?_some hs
          have hm : l.Mentions arg s.name :=
            Or.inr ⟨_, hcs, s, List.mem_of_find?_eq_some hs, rfl, c, by simp, hletter⟩
          exact ih (h.setFlag harg hm hf) _ hbehind e
        · cases e
      · split at e
        · cases e
          exact h
        · split at e
          · next g₁ hv =>
            cases e
            exact h.setValue hv
          · cases e

theorem long {cs : List Char} (h : GivenBy l g args) (harg : arg ∈ args) (hcs : arg.toList = '-' :: '-' :: cs)
    (e : l.long g cs = .ok (g', w')) : GivenBy l g' args := by
  unfold Level.long at e
  dsimp only at e
  split at e
  · cases e
  · next s hs =>
    split at e
    · cases e
    · cases e
      exact h
    · next hkind hvalue =>
      split at e
      · next g₁ hf =>
        cases e
        -- without a value the whole argument is the name of the flag
        have hname : s.name.toList = cs := by
          have hname : s.name = String.ofList (cs.takeWhile (· != '=')) := by simpa using List.find?_some hs
          have hwhole := List.takeWhile_append_dropWhile (p := (· != '=')) (l := cs)
          rw [hvalue, List.append_nil] at hwhole
          rw [hname, hwhole, String.toList_ofList]
        exact h.setFlag harg (Or.inl (by rw [hcs, hname])) hf
      · cases e
    · cases e
      exact h
    · split at e
      · next g₁ hv =>
        cases e
        exact h.setValue hv
      · cases e
    · cases e

theorem switch (h : GivenBy l g args) (harg : arg ∈ args) (hdash : Level.looksLikeSwitch arg = true)
    (e : l.switch g arg = .ok (g', w')) : GivenBy l g' args := by
  unfold Level.looksLikeSwitch at hdash
  split at hdash
  · next c cs hcs =>
    unfold Level.switch at e
    split at e
    · next cs' hcs' => exact h.long harg hcs' e
    · next d cs' hne hcs' =>
      cases hcs.symm.trans hcs'
      exact h.letters [] harg hcs e
    · cases e
  · cases hdash

theorem read {sub : Option (String × List String)} (h : GivenBy l g args) (hsub : ∀ x ∈ rest, x ∈ args)
    (e : l.read g w rest = .ok (g', sub)) : GivenBy l g' args := by
  induction rest generalizing g w with
  | nil =>
    unfold Level.read at e
    split at e
    · cases e
    · cases e
      exact h
  | cons arg rest ih =>
    have harg : arg ∈ args := hsub arg List.mem_cons_self
    have ih {g : Given} {w : Waiting} (h : GivenBy l g args) (e : l.read g w rest = .ok (g', sub)) :
        GivenBy l g' args := ih h (fun x hx => hsub x (List.mem_cons_of_mem _ hx)) e
    unfold Level.read at e
    split at e
    · split at e
      · cases e
      · split at e
        · next hv => exact ih (h.setValue hv) e
        · cases e
    · split at e
      · split at e
        · next ho =>
          cases e
          exact h.operandsOnly (fun x hx => hsub x (List.mem_cons_of_mem _ hx)) ho
        · cases e
      · split at e
        · next hdash =>
          split at e
          · next hs => exact ih (h.switch harg hdash hs) e
          · cases e
        · split at e
          · cases e
            exact h
          · split at e
            · next ho => exact ih (h.addOperand harg ho) e
            · cases e

theorem empty : GivenBy l {} args := ⟨nofun, nofun⟩

end GivenBy

end Erd.Command
