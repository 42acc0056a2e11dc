import Erd.Proofs.Token.Prefix

/-!
# Texts joined by a line break

A line break ends every lexeme but a string, and every gap but a block comment.  So a text with a line break
and another text behind it has the tokens of both, with the line break between them, unless it ends inside
a string or a block comment.

    splitGap m cs = (cs, []) → splitGap m (cs ++ ds) = cutMore cs (splitGap (gapMode m cs) ds)
                                                                                  (splitGap_append_of_nil)
    tokenize (a ++ "\n" ++ b) = ts ++ newline :: (tokenize b).map (below …)       (tokenize_join)
-/

namespace Erd

/-! ## Definitions -/

/-- Where a gap is when it ends. -/
def gapMode : GapMode → List Char → GapMode
  | m, [] => m
  | .blank, '/' :: '/' :: r => gapMode .lineComment r
  | .blank, '/' :: '*' :: r => gapMode (.blockComment false) r
  | .blank, c :: r => if isSpacing c then gapMode .blank r else .blank
  | .lineComment, c :: r => if c = '\n' then .lineComment else gapMode .lineComment r
  | .blockComment star, c :: r =>
    if star && c == '/' then gapMode .blank r else gapMode (.blockComment (c == '*')) r

/-- Where the last gap of a text is when the text ends. -/
def lastGapMode (cs : List Char) : GapMode :=
  match h : (splitGap .blank cs).2 with
  | [] => gapMode .blank cs
  | c :: r =>
    have : (splitLexeme c r).2.length < cs.length := splitLexeme_lt h
    lastGapMode (splitLexeme c r).2
termination_by cs.length

/-- The text ends inside a block comment that is not closed. -/
def EndsInComment (text : String) : Prop := ∃ star, lastGapMode text.toList = .blockComment star

theorem lastGapMode_of_rest_nil {cs : List Char} (h : (splitGap .blank cs).2 = []) :
    lastGapMode cs = gapMode .blank cs := by
  unfold lastGapMode
  split
  · rfl
  · next e => simp [h] at e

theorem lastGapMode_of_rest_cons {cs : List Char} {c : Char} {r : List Char}
    (h : (splitGap .blank cs).2 = c :: r) : lastGapMode cs = lastGapMode (splitLexeme c r).2 := by
  conv => lhs; unfold lastGapMode
  split
  · next e => simp [h] at e
  · next e =>
    rw [h] at e
    cases e
    rfl

/-! ## Gaps -/

theorem spacing_ne_slash {c : Char} (h : isSpacing c = true) : c ≠ '/' := by
  rintro rfl
  exact absurd h (by decide)

theorem splitGap_blank_spacing {c : Char} (h : isSpacing c = true) (r : List Char) :
    splitGap .blank (c :: r) = cutMore [c] (splitGap .blank r) := by
  have := spacing_ne_slash h
  conv => lhs; unfold splitGap
  split <;> simp_all

theorem gapMode_blank_spacing {c : Char} (h : isSpacing c = true) (r : List Char) :
    gapMode .blank (c :: r) = gapMode .blank r := by
  have := spacing_ne_slash h
  conv => lhs; unfold gapMode
  split <;> simp_all

/-- A gap that reaches to the end goes on in what stands behind it. -/
theorem splitGap_append_of_nil {m : GapMode} {cs : List Char} (h : (splitGap m cs).2 = []) (ds : List Char) :
    splitGap m (cs ++ ds) = cutMore cs (splitGap (gapMode m cs) ds) := by
  fun_induction splitGap m cs with
  | case1 m => cases m <;> simp [gapMode, cutMore]
  | case2 r ih => simp [splitGap, gapMode, ih h, cutMore]
  | case3 r ih => simp [splitGap, gapMode, ih h, cutMore]
  | case4 c r h1 h2 hs ih =>
    rw [List.cons_append, splitGap_blank_spacing hs, gapMode_blank_spacing hs, ih h]
    rfl
  | case5 c r h1 h2 hs => cases h
  | case6 r => cases h
  | case7 c r hc ih => simp [splitGap, gapMode, hc, ih h, cutMore]
  | case8 star c r hc ih => simp [splitGap, gapMode, hc, ih h, cutMore]
  | case9 star c r hc ih => simp [splitGap, gapMode, hc, ih h, cutMore]

/-- A gap that ends before the end does so with a line break behind it too. -/
theorem splitGap_append_of_ne_nil {m : GapMode} {cs : List Char} (h : (splitGap m cs).2 ≠ []) (b : List Char) :
    splitGap m (cs ++ '\n' :: b) = ((splitGap m cs).1, (splitGap m cs).2 ++ '\n' :: b) := by
  fun_induction splitGap m cs with
  | case1 m => exact absurd rfl h
  | case2 r ih => simp [splitGap, ih h, cutMore]
  | case3 r ih => simp [splitGap, ih h, cutMore]
  | case4 c r h1 h2 hs ih =>
    rw [List.cons_append, splitGap_blank_spacing hs, ih h]
    rfl
  | case5 c r h1 h2 hs =>
    cases r with
    | nil =>
      conv => lhs; unfold splitGap
      split <;> simp_all
    | cons d r =>
      conv => lhs; unfold splitGap
      split <;> simp_all
  | case6 r => simp [splitGap]
  | case7 c r hc ih => simp [splitGap, hc, ih h, cutMore]
  | case8 star c r hc ih => simp [splitGap, hc, ih h, cutMore]
  | case9 star c r hc ih => simp [splitGap, hc, ih h, cutMore]

/-- A line break ends every gap but a block comment. -/
theorem splitGap_newline {m : GapMode} (h : ∀ star, m ≠ .blockComment star) (b : List Char) :
    splitGap m ('\n' :: b) = ([], '\n' :: b) := by
  cases m with
  | blank => exact splitGap_lexeme (by decide) (by decide) b
  | lineComment => simp [splitGap]
  | blockComment star => exact absurd rfl (h star)

/-! ## Lexemes -/

/-- A line break ends every lexeme but a string that is not closed. -/
theorem splitLexeme_newline {c : Char} {r : List Char}
    (h : (splitLexeme c r).1.kind = .string → (splitLexeme c r).2 ≠ []) (b : List Char) :
    splitLexeme c (r ++ '\n' :: b) = ((splitLexeme c r).1, (splitLexeme c r).2 ++ '\n' :: b) := by
  have hbroken := splitLexeme_endsAs h (.broken (List.append_nil _).symm (show isLexemeChar '\n' = false by decide) b)
  rwa [← List.append_assoc, splitLexeme_tail] at hbroken

/-! ## Places -/

namespace Position

/-- The place so many lines further down. -/
def below (n : Nat) (p : Position) : Position := ⟨p.line + n, p.column⟩

theorem next_below (n : Nat) (p : Position) (c : Char) : (p.below n).next c = (p.next c).below n := by
  unfold next below
  split
  · rw [Nat.add_right_comm]
  · rfl

theorem advance_below (n : Nat) (p : Position) (cs : List Char) :
    (p.below n).advance cs = (p.advance cs).below n := by
  induction cs generalizing p with
  | nil => rfl
  | cons c cs ih =>
    show ((p.below n).next c).advance cs = _
    rw [next_below, ih]
    rfl

theorem line_advance (p : Position) (cs : List Char) :
    (p.advance cs).line = p.line + cs.count '\n' := by
  induction cs generalizing p with
  | nil => rfl
  | cons c cs ih =>
    show ((p.next c).advance cs).line = _
    rw [ih, List.count_cons]
    unfold next
    by_cases hc : c = '\n'
    · simp [hc]
      omega
    · simp [hc]

end Position

namespace Token

/-- The token so many lines further down. -/
def below (n : Nat) (t : Token) : Token := { t with start := t.start.below n }

@[simp]
theorem terminal_below (n : Nat) (t : Token) : (t.below n).terminal = t.terminal := rfl

/-- The token of a line break. -/
def newlineAt (p : Position) : Token := ⟨.newline, "\n", p⟩

end Token

/-! ## Scanning -/

namespace Scanner

/-- The same text further down has the same tokens further down. -/
theorem tokens_below (n : Nat) (p : Position) (cs : List Char) :
    tokens ⟨p.below n, cs⟩ = (tokens ⟨p, cs⟩).map (Token.below n) := by
  induction hlen : cs.length using Nat.strongRecOn generalizing p cs with
  | ind len ih =>
    subst hlen
    cases h : splitGap .blank cs with
    | mk g rest =>
      cases rest with
      | nil =>
        rw [tokens_of_rest_nil (by rw [h]), tokens_of_rest_nil (by rw [h]), Position.advance_below]
        rfl
      | cons c r =>
        rw [tokens_of_rest_cons (s := ⟨p.below n, cs⟩) h, tokens_of_rest_cons (s := ⟨p, cs⟩) h,
          Position.advance_below, Position.advance_below, ih _ ?_ _ _ rfl]
        · rfl
        · exact splitLexeme_lt (congrArg Prod.snd h)

/-- A line break and more text behind a text bring a token for the line break and those of the text. -/
theorem tokens_join (p : Position) (cs b : List Char) (hc : ∀ star, lastGapMode cs ≠ .blockComment star)
    (hs : ∀ t ∈ (terminals cs).getLast?, t.kind ≠ .string) :
    ∃ ts, tokens ⟨p, cs⟩ = ts ++ [.endAt (p.advance cs)] ∧
      tokens ⟨p, cs ++ '\n' :: b⟩ = ts ++ .newlineAt (p.advance cs) :: tokens ⟨(p.advance cs).next '\n', b⟩ := by
  induction hlen : cs.length using Nat.strongRecOn generalizing p cs with
  | ind len ih =>
    subst hlen
    have hgap := splitGap_append .blank cs
    cases h : splitGap .blank cs with
    | mk g rest =>
      rw [h] at hgap
      cases rest with
      | nil =>
        rw [List.append_nil] at hgap
        subst hgap
        have hm : ∀ star, gapMode .blank g ≠ .blockComment star := by
          rwa [← lastGapMode_of_rest_nil (by rw [h])]
        have hj : splitGap .blank (g ++ '\n' :: b) = (g, '\n' :: b) := by
          rw [splitGap_append_of_nil (by rw [h]), splitGap_newline hm, cutMore, List.append_nil]
        refine ⟨[], tokens_of_rest_nil (by rw [h]), ?_⟩
        rw [tokens_of_rest_cons (s := ⟨p, g ++ '\n' :: b⟩) hj, splitLexeme_mark (by decide)]
        rfl
      | cons c r =>
        have hl := terminals_of_rest_cons (show (splitGap .blank cs).2 = c :: r by rw [h])
        have hstring : (splitLexeme c r).1.kind = .string → (splitLexeme c r).2 ≠ [] := by
          intro hk hnil
          rw [hl, hnil, terminals_nil] at hs
          exact hs _ rfl hk
        have hj : splitGap .blank (cs ++ '\n' :: b) = (g, c :: (r ++ '\n' :: b)) := by
          rw [splitGap_append_of_ne_nil (by rw [h]; exact List.cons_ne_nil _ _), h]
          rfl
        have hend : p.advance cs = ((p.advance g).advance (splitLexeme c r).1.text).advance (splitLexeme c r).2 := by
          rw [← Position.advance_append, ← Position.advance_append, splitLexeme_append, hgap]
        obtain ⟨ts, e1, e2⟩ := ih _ (splitLexeme_lt (congrArg Prod.snd h))
          ((p.advance g).advance (splitLexeme c r).1.text) (splitLexeme c r).2
          (by rwa [← lastGapMode_of_rest_cons (by rw [h])])
          (by
            intro t ht
            refine hs t ?_
            rw [hl]
            cases hr : terminals (splitLexeme c r).2 with
            | nil => rw [hr] at ht; cases ht
            | cons u us => rw [hr] at ht; exact ht) rfl
        refine ⟨.ofLexeme (splitLexeme c r).1 (p.advance g) :: ts, ?_, ?_⟩
        · rw [tokens_of_rest_cons (s := ⟨p, cs⟩) h, e1, hend]
          rfl
        · rw [tokens_of_rest_cons (s := ⟨p, cs ++ '\n' :: b⟩) hj, splitLexeme_newline hstring, e2, hend]
          rfl

end Scanner

/-- The tokens of two texts with a line break between them. -/
theorem tokenize_join {a : String} (hc : ¬ EndsInComment a)
    (hs : ∀ t ∈ (terminals a.toList).getLast?, t.kind ≠ .string) (b : String) :
    ∃ ts p, tokenize a = ts ++ [.endAt p] ∧
      tokenize (a ++ "\n" ++ b) =
        ts ++ .newlineAt p :: (tokenize b).map (Token.below (1 + a.toList.count '\n')) := by
  have hc : ∀ star, lastGapMode a.toList ≠ .blockComment star := fun star h => hc ⟨star, h⟩
  obtain ⟨ts, e1, e2⟩ := Scanner.tokens_join .start a.toList b.toList hc hs
  refine ⟨ts, Position.start.advance a.toList, e1, ?_⟩
  have hline : (Position.start.advance a.toList).next '\n' = .below (1 + a.toList.count '\n') .start := by
    rw [Position.next, if_pos rfl, Position.line_advance]
    simp only [Position.below, Position.start, Position.mk.injEq, and_true]
    omega
  rw [hline, Scanner.tokens_below] at e2
  have hlist : (a ++ "\n" ++ b).toList = a.toList ++ '\n' :: b.toList := by simp
  rw [tokenize, Scanner.ofText, hlist]
  exact e2

end Erd
