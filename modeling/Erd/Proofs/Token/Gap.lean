import Erd.Proofs.Token.Filler

/-!
# What gaps look like

`GapText g rest` says what may stand between lexemes, and a gap is the longest such text in front of another.
It is what is cut off there.

    Gap g rest ↔ splitGap .blank (g ++ rest) = (g, rest)                                           (gap_iff)
-/

namespace Erd

/-! ## Definitions -/

/-- Blanks and comments in front of a text. -/
inductive GapText : List Char → List Char → Prop where
  | nil {rest : List Char} : GapText [] rest
  | blank {c : Char} {g rest : List Char} (hc : isSpacing c = true) (hg : GapText g rest) : GapText (c :: g) rest
  | lineComment {body rest : List Char} (hbody : '\n' ∉ body) (hrest : StopsAt (· != '\n') rest) :
      GapText ('/' :: '/' :: body) rest
  | blockComment {body g rest : List Char} (hbody : CommentBody body) (hg : GapText g rest) :
      GapText ('/' :: '*' :: (body ++ '*' :: '/' :: g)) rest
  /-- A block comment that is never closed reaches to the end of the text. -/
  | openComment {body : List Char} (hbody : ¬ ['*', '/'] <:+: body) : GapText ('/' :: '*' :: body) []

/-- The longest run of blanks and comments in front of a text. -/
structure Gap (g rest : List Char) : Prop where
  text : GapText g rest
  longest : ∀ more rest', rest = more ++ rest' → GapText (g ++ more) rest' → more = []

/-! ## Gaps -/

/-- A line comment ends in front of the first line break. -/
theorem splitGap_lineComment (cs : List Char) :
    '\n' ∉ (splitGap .lineComment cs).1 ∧ StopsAt (· != '\n') (splitGap .lineComment cs).2 := by
  induction cs with
  | nil => exact ⟨List.not_mem_nil, stopsAt_nil⟩
  | cons c cs ih =>
    by_cases hc : c = '\n'
    · simp [splitGap, hc, StopsAt]
    · rw [splitGap, if_neg hc]
      exact ⟨List.not_mem_cons_of_ne_of_not_mem (Ne.symm hc) ih.1, ih.2⟩

/-- What stands behind a comment's opening is a body and the rest behind its end, or never ends. -/
theorem comment_cases (cs : List Char) :
    (∃ body rest, cs = body ++ '*' :: '/' :: rest ∧ CommentBody body) ∨ ¬ ['*', '/'] <:+: cs := by
  induction cs with
  | nil => exact Or.inr (by simp)
  | cons c cs ih =>
    by_cases hc : ∃ rest, c = '*' ∧ cs = '/' :: rest
    · obtain ⟨rest, rfl, rfl⟩ := hc
      exact Or.inl ⟨[], rest, rfl, by decide⟩
    · rcases ih with ⟨body, rest, rfl, hbody⟩ | hopen
      · refine Or.inl ⟨c :: body, rest, rfl, fun hin => ?_⟩
        rcases List.infix_cons_iff.1 hin with hstart | hin
        · obtain ⟨rfl, hslash⟩ := List.cons_prefix_cons.1 hstart
          -- the body would begin with the slash, or be empty and stand in front of the star
          cases body with
          | nil => exact absurd hslash (by decide)
          | cons d body =>
            obtain ⟨rfl, -⟩ := List.cons_prefix_cons.1 hslash
            exact hc ⟨_, rfl, rfl⟩
        · exact hbody hin
      · refine Or.inr fun hin => ?_
        rcases List.infix_cons_iff.1 hin with hstart | hin
        · obtain ⟨rfl, t, rfl⟩ := List.cons_prefix_cons.1 hstart
          exact hc ⟨t, rfl, rfl⟩
        · exact hopen hin

/-- What is gapText is part of the gap. -/
theorem splitGap_gapText {g rest : List Char} (h : GapText g rest) :
    splitGap .blank (g ++ rest) = cutMore g (splitGap .blank rest) := by
  induction h with
  | nil => rfl
  | blank hc _ ih =>
    rw [List.cons_append, splitGap_blank_spacing hc, ih]
    rfl
  | @lineComment body rest hbody hrest =>
    have hend : splitGap .lineComment rest = splitGap .blank rest := by
      cases rest with
      | nil => rfl
      | cons c rest =>
        obtain rfl : c = '\n' := by simpa [StopsAt] using hrest
        have hline : ∀ star, GapMode.lineComment ≠ .blockComment star := by simp
        have hblank : ∀ star, GapMode.blank ≠ .blockComment star := by simp
        rw [splitGap_newline hline, splitGap_newline hblank]
    rw [List.cons_append, List.cons_append, splitGap, splitGap_line hbody, hend]
    rfl
  | @blockComment body g rest hbody _ ih =>
    have h : splitGap (.blockComment false) (body ++ '*' :: '/' :: (g ++ rest)) = _ :=
      splitGap_comment (by simpa using hbody) (g ++ rest)
    simp only [List.cons_append, List.append_assoc]
    rw [splitGap, h, ih]
    simp [cutMore]
  | @openComment body hbody =>
    have h : splitGap (.blockComment false) body = _ := splitGap_open hbody
    simp [splitGap, h, cutMore]

/-- A text begins with a blank or a comment, or its gap is empty. -/
theorem gapStart_cases (c : Char) (r : List Char) :
    isSpacing c = true ∨ (∃ r', c = '/' ∧ r = '/' :: r') ∨ (∃ r', c = '/' ∧ r = '*' :: r') ∨
      splitGap .blank (c :: r) = ([], c :: r) := by
  cases hs : isSpacing c with
  | true => exact Or.inl rfl
  | false =>
    by_cases hline : ∃ r', c = '/' ∧ r = '/' :: r'
    · exact Or.inr (Or.inl hline)
    · by_cases hblock : ∃ r', c = '/' ∧ r = '*' :: r'
      · exact Or.inr (Or.inr (Or.inl hblock))
      · refine Or.inr (Or.inr (Or.inr ?_))
        unfold splitGap
        split <;> simp_all

/-- What is cut off is text of a gap. -/
theorem gapText_splitGap (cs : List Char) : GapText (splitGap .blank cs).1 (splitGap .blank cs).2 := by
  induction hlen : cs.length using Nat.strongRecOn generalizing cs with
  | ind len ih =>
    subst hlen
    cases cs with
    | nil => exact .nil
    | cons c r =>
      rcases gapStart_cases c r with hs | ⟨r, rfl, rfl⟩ | ⟨r, rfl, rfl⟩ | hnone
      · rw [splitGap_blank_spacing hs]
        exact .blank hs (ih r.length (Nat.lt_succ_self _) r rfl)
      · obtain ⟨hbody, hrest⟩ := splitGap_lineComment r
        exact .lineComment hbody hrest
      · rw [splitGap]
        rcases comment_cases r with ⟨body, rest, rfl, hbody⟩ | hopen
        · have h : splitGap (.blockComment false) (body ++ '*' :: '/' :: rest) = _ :=
            splitGap_comment (by simpa using hbody) rest
          have hrest := ih rest.length (by simp only [List.length_cons, List.length_append]; omega) rest rfl
          rw [h]
          simpa [cutMore] using GapText.blockComment hbody hrest
        · have h : splitGap (.blockComment false) r = _ := splitGap_open hopen
          rw [h]
          exact .openComment hopen
      · rw [hnone]
        exact .nil

/-- A gap is what is cut off the front of a text. -/
theorem gap_iff {g rest : List Char} : Gap g rest ↔ splitGap .blank (g ++ rest) = (g, rest) := by
  constructor
  · intro h
    have hcut := splitGap_gapText h.text
    have happ := splitGap_append .blank rest
    have hmore := gapText_splitGap (g ++ rest)
    rw [hcut] at hmore
    have hnil := h.longest _ _ happ.symm hmore
    rw [hnil, List.nil_append] at happ
    rw [hcut]
    simp [cutMore, hnil, happ]
  · intro h
    refine ⟨by simpa [h] using gapText_splitGap (g ++ rest), ?_⟩
    rintro more rest' rfl hmore
    have hcut := splitGap_gapText hmore
    rw [List.append_assoc, h] at hcut
    have hmore : g = g ++ (more ++ (splitGap .blank rest').1) := by
      simpa [cutMore] using congrArg Prod.fst hcut
    exact (List.append_eq_nil_iff.1 (List.self_eq_append_right.1 hmore)).1

end Erd
