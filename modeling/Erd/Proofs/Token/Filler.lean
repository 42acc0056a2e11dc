import Erd.Proofs.Token.Joined

/-!
# Blanks and comments between tokens

A filler is a blank and more blanks and closed block comments behind it, all on one line.  In front of a
token it changes no terminal: a lexeme that ends there ends at the blank too, a line comment that reaches
there goes on through the filler, and everywhere else the filler becomes part of the gap.

    Boundary front rest → Filler g → terminals (front ++ (g ++ rest)) = terminals (front ++ rest)
                                                                               (terminals_filled)
    t ∈ tokens of cs → cs is some front and rest with a boundary at the place of t        (exists_boundary)
-/

namespace Erd

/-! ## Definitions -/

/-- What may stand between `/*` and `*/`. -/
def CommentBody (body : List Char) : Prop := ¬ ['*', '/'] <:+: body ++ ['*']

instance (body : List Char) : Decidable (CommentBody body) :=
  inferInstanceAs (Decidable (¬ ['*', '/'] <:+: body ++ ['*']))

/-- Blanks and closed block comments. -/
inductive Blanks : List Char → Prop where
  | nil : Blanks []
  | blank {c : Char} {g : List Char} (hc : isSpacing c = true) (hg : Blanks g) : Blanks (c :: g)
  | comment {body g : List Char} (hbody : CommentBody body) (hg : Blanks g) :
      Blanks ('/' :: '*' :: (body ++ '*' :: '/' :: g))

/-- A text of blanks and closed block comments that begins with a blank and holds no line break. -/
structure Filler (g : List Char) : Prop where
  head : ∃ b y, g = b :: y ∧ isSpacing b = true
  blanks : Blanks g
  line : '\n' ∉ g

/-- A lexeme begins between the two parts of a text. -/
inductive Boundary : List Char → List Char → Prop where
  | gap {g r : List Char} {c : Char} (h : splitGap .blank (g ++ c :: r) = (g, c :: r)) : Boundary g (c :: r)
  | lexeme {g r front rest : List Char} {c : Char} (h : splitGap .blank (g ++ c :: r) = (g, c :: r))
      (hr : (splitLexeme c r).2 = front ++ rest) (hb : Boundary front rest) :
      Boundary (g ++ ((splitLexeme c r).1.text ++ front)) rest

/-! ## Gaps -/

theorem cutMore_eq {g ds : List Char} {cut : List Char × List Char} :
    cutMore g cut = (g, ds) ↔ cut = ([], ds) := by
  obtain ⟨a, b⟩ := cut
  simp [cutMore]

theorem cutMore_cons {c : Char} {g ds : List Char} {cut : List Char × List Char} :
    cutMore [c] cut = (c :: g, ds) ↔ cut = (g, ds) := by
  obtain ⟨a, b⟩ := cut
  simp [cutMore]

/-- A comment that does not end in a text does not end at its first character, nor in what stands behind. -/
theorem comment_step {star : Bool} {c : Char} {cs : List Char}
    (h : ¬ ['*', '/'] <:+: (if star then '*' :: c :: cs else c :: cs)) :
    (star && c == '/') = false ∧ ¬ ['*', '/'] <:+: (if c == '*' then '*' :: cs else cs) := by
  have htail : ¬ ['*', '/'] <:+: c :: cs := by
    intro hin
    apply h
    cases star with
    | false => exact hin
    | true => exact hin.trans (List.infix_cons (List.infix_refl _))
  constructor
  · rw [Bool.eq_false_iff]
    intro hend
    obtain ⟨rfl, hc⟩ := Bool.and_eq_true_iff.1 hend
    obtain rfl := beq_iff_eq.1 hc
    exact h ⟨[], cs, rfl⟩
  · by_cases hc : c = '*'
    · subst hc
      exact htail
    · rw [if_neg (mt beq_iff_eq.1 hc)]
      exact fun hin => htail (hin.trans (List.infix_cons (List.infix_refl _)))

/-- A closed comment ends where it is closed. -/
theorem splitGap_comment {star : Bool} {body : List Char} (h : CommentBody (if star then '*' :: body else body))
    (rest : List Char) : splitGap (.blockComment star) (body ++ '*' :: '/' :: rest) =
      cutMore (body ++ ['*', '/']) (splitGap .blank rest) := by
  induction body generalizing star with
  | nil => simp [splitGap, cutMore]
  | cons c body ih =>
    have hopen : ¬ ['*', '/'] <:+: (if star then '*' :: c :: (body ++ ['*']) else c :: (body ++ ['*'])) := by
      cases star <;> exact h
    obtain ⟨hgo, hrest⟩ := comment_step hopen
    have hbody : CommentBody (if c == '*' then '*' :: body else body) := by
      cases hc : c == '*' <;> rw [hc] at hrest <;> exact hrest
    rw [List.cons_append, splitGap, hgo, if_neg Bool.false_ne_true, ih hbody]
    simp [cutMore]

/-- A comment that does not end takes everything. -/
theorem splitGap_open {star : Bool} {body : List Char}
    (h : ¬ ['*', '/'] <:+: (if star then '*' :: body else body)) :
    splitGap (.blockComment star) body = (body, []) := by
  induction body generalizing star with
  | nil => rfl
  | cons c body ih =>
    obtain ⟨hgo, hrest⟩ := comment_step h
    rw [splitGap, hgo, if_neg Bool.false_ne_true, ih hrest]
    rfl

/-- Blanks and comments in front of a text are part of its gap. -/
theorem splitGap_blanks {g : List Char} (hg : Blanks g) (rest : List Char) :
    splitGap .blank (g ++ rest) = cutMore g (splitGap .blank rest) := by
  induction hg with
  | nil => rfl
  | blank hc _ ih =>
    rw [List.cons_append, splitGap_blank_spacing hc, ih]
    rfl
  | @comment body g hbody _ ih =>
    have h : splitGap (.blockComment false) (body ++ '*' :: '/' :: (g ++ rest)) = _ :=
      splitGap_comment (by simpa using hbody) (g ++ rest)
    simp only [List.cons_append, List.append_assoc]
    rw [splitGap, h, ih]
    simp [cutMore]

/-- A line comment goes on through a text without a line break. -/
theorem splitGap_line {g : List Char} (hg : '\n' ∉ g) (rest : List Char) :
    splitGap .lineComment (g ++ rest) = cutMore g (splitGap .lineComment rest) := by
  induction g with
  | nil => rfl
  | cons c g ih =>
    have hc : c ≠ '\n' := fun hc => hg (hc ▸ List.mem_cons_self)
    rw [List.cons_append, splitGap, if_neg hc, ih (mt (List.mem_cons_of_mem c) hg)]
    rfl

/-- Whether a gap begins shows in two characters, of which a blank may be the second. -/
theorem splitGap_stays {m : GapMode} {x z y : List Char} {b : Char} (hx : x ≠ []) (hb : isSpacing b = true)
    (h : splitGap m (x ++ z) = ([], x ++ z)) : splitGap m (x ++ b :: y) = ([], x ++ b :: y) := by
  obtain ⟨c, x, rfl⟩ := List.exists_cons_of_ne_nil hx
  cases m with
  | lineComment =>
    by_cases hc : c = '\n'
    · simp [splitGap, hc]
    · simp [splitGap, hc, cutMore] at h
  | blockComment star =>
    cases hs : star && c == '/' <;> simp [splitGap, hs, cutMore] at h
  | blank =>
    cases hs : isSpacing c with
    | true =>
      rw [List.cons_append, splitGap_blank_spacing hs] at h
      simp [cutMore] at h
    | false =>
      by_cases hc : c = '/'
      · subst hc
        cases x with
        | nil =>
          have hb1 : b ≠ '/' := spacing_ne_slash hb
          have hb2 : b ≠ '*' := by
            rintro rfl
            exact absurd hb (by decide)
          simp [splitGap, hb1, hb2, hs]
        | cons d x =>
          by_cases hd : d = '/'
          · simp [splitGap, hd, cutMore] at h
          · by_cases hd' : d = '*'
            · simp [splitGap, hd', cutMore] at h
            · simp [splitGap, hd, hd', hs]
      · exact splitGap_lexeme hs hc _

/-- A gap in front of a text is a gap by itself. -/
theorem splitGap_front {m : GapMode} {g ds : List Char} (h : splitGap m (g ++ ds) = (g, ds)) :
    (splitGap m g).2 = [] := by
  fun_induction splitGap m g with
  | case1 m => rfl
  | case2 r ih =>
    refine ih ?_
    simpa [splitGap, cutMore, Prod.ext_iff] using h
  | case3 r ih =>
    refine ih ?_
    simpa [splitGap, cutMore, Prod.ext_iff] using h
  | case4 c r h1 h2 hs ih =>
    refine ih ?_
    rwa [List.cons_append, splitGap_blank_spacing hs, cutMore_cons] at h
  | case5 c r h1 h2 hs =>
    exfalso
    have hs : isSpacing c = false := by simpa using hs
    by_cases hc : c = '/'
    · subst hc
      cases r with
      | nil =>
        cases ds with
        | nil => simp [splitGap, hs] at h
        | cons d ds =>
          by_cases hd : d = '/'
          · simp [splitGap, hd, cutMore] at h
          · by_cases hd' : d = '*'
            · simp [splitGap, hd', cutMore] at h
            · simp [splitGap, hd, hd', hs] at h
      | cons d r =>
        have hd : d ≠ '/' := fun hd => h1 r rfl (by rw [hd])
        have hd' : d ≠ '*' := fun hd => h2 r rfl (by rw [hd])
        simp [splitGap, hd, hd', hs] at h
    · rw [List.cons_append, splitGap_lexeme hs hc] at h
      simp at h
  | case6 r =>
    simp [splitGap] at h
  | case7 c r hc ih =>
    refine ih ?_
    rwa [List.cons_append, splitGap, if_neg hc, cutMore_cons] at h
  | case8 star c r hc ih =>
    refine ih ?_
    rwa [List.cons_append, splitGap, if_pos hc, cutMore_cons] at h
  | case9 star c r hc ih =>
    refine ih ?_
    rwa [List.cons_append, splitGap, if_neg hc, cutMore_cons] at h

/-- What stands behind a gap is judged by where the gap is when it ends. -/
theorem splitGap_behind {g ds : List Char} (h : splitGap .blank (g ++ ds) = (g, ds)) :
    splitGap (gapMode .blank g) ds = ([], ds) ∧
      ∀ es, splitGap .blank (g ++ es) = cutMore g (splitGap (gapMode .blank g) es) := by
  have hmore := splitGap_append_of_nil (splitGap_front h)
  refine ⟨?_, hmore⟩
  rw [hmore] at h
  exact cutMore_eq.1 h

/-- A filler in front of a lexeme becomes part of the gap. -/
theorem splitGap_filled {g r f : List Char} {c : Char} (h : splitGap .blank (g ++ c :: r) = (g, c :: r))
    (hf : Filler f) : (splitGap .blank (g ++ (f ++ c :: r))).2 = c :: r := by
  obtain ⟨hstop, hmore⟩ := splitGap_behind h
  rw [hmore]
  show (splitGap (gapMode .blank g) (f ++ c :: r)).2 = c :: r
  cases hm : gapMode .blank g with
  | blank =>
    rw [hm] at hstop
    rw [splitGap_blanks hf.blanks, hstop]
    rfl
  | lineComment =>
    rw [hm] at hstop
    rw [splitGap_line hf.line, hstop]
    rfl
  | blockComment star =>
    -- a comment that is still open takes the character
    rw [hm] at hstop
    cases hs : star && c == '/' <;> simp [splitGap, hs, cutMore] at hstop

/-! ## Lexemes -/

/-- A lexeme in front of other text is cut off alike if a blank comes into that text. -/
theorem splitLexeme_blank {c : Char} {r x z y : List Char} {b : Char} (h : (splitLexeme c r).2 = x ++ z)
    (hz : z ≠ []) (hb : isSpacing b = true) :
    splitLexeme c ((splitLexeme c r).1.text.tail ++ (x ++ b :: y)) = ((splitLexeme c r).1, x ++ b :: y) := by
  have hbreak : isLexemeChar b = false := by
    simp only [isSpacing, Bool.or_eq_true, beq_iff_eq] at hb
    rcases hb with (rfl | rfl) | rfl <;> decide
  refine splitLexeme_endsAs (fun _ => ?_) (.broken h hbreak y)
  rw [h]
  exact List.append_ne_nil_of_right_ne_nil x hz

/-! ## Fillers in front of tokens -/

theorem Boundary.rest_ne_nil {front rest : List Char} (h : Boundary front rest) : rest ≠ [] := by
  induction h with
  | gap h => exact List.cons_ne_nil _ _
  | lexeme h hr hb ih => exact ih

/-- A filler in front of a token leaves the terminals of a text as they are. -/
theorem terminals_filled {front rest f : List Char} (h : Boundary front rest) (hf : Filler f) :
    terminals (front ++ (f ++ rest)) = terminals (front ++ rest) := by
  induction h with
  | @gap g r c h =>
    refine terminals_congr ?_
    rw [splitGap_filled h hf, h]
  | @lexeme g r front rest c h hr hb ih =>
    obtain ⟨b, y, rfl, hblank⟩ := hf.head
    have htext := splitLexeme_text c r
    have hold : c :: r = (splitLexeme c r).1.text ++ front ++ rest := by
      rw [List.append_assoc, ← hr, splitLexeme_append]
    -- the gap in front of the lexeme ends as before
    have hgap : splitGap .blank (g ++ ((splitLexeme c r).1.text ++ front ++ b :: (y ++ rest))) =
        (g, (splitLexeme c r).1.text ++ front ++ b :: (y ++ rest)) := by
      obtain ⟨hstop, hmore⟩ := splitGap_behind h
      rw [hold] at hstop
      have hne : (splitLexeme c r).1.text ++ front ≠ [] := by
        rw [htext]
        exact List.cons_ne_nil _ _
      rw [hmore, splitGap_stays hne hblank hstop, cutMore, List.append_nil]
    have hlexeme := splitLexeme_blank (y := y ++ rest) hr hb.rest_ne_nil hblank
    have hnew : (splitGap .blank (g ++ ((splitLexeme c r).1.text ++ front) ++ (b :: y ++ rest))).2 =
        c :: ((splitLexeme c r).1.text.tail ++ (front ++ b :: (y ++ rest))) := by
      rw [List.append_assoc, List.cons_append, hgap, htext]
      simp
    have hbefore : (splitGap .blank (g ++ ((splitLexeme c r).1.text ++ front) ++ rest)).2 = c :: r := by
      rw [List.append_assoc, ← hold, h]
    rw [terminals_of_rest_cons hnew, terminals_of_rest_cons hbefore, hlexeme, hr, ← ih]
    rfl

/-! ## Places of tokens -/

namespace Position

theorem column_advance (p : Position) {cs : List Char} (h : '\n' ∉ cs) :
    (p.advance cs).column = p.column + cs.length := by
  induction cs generalizing p with
  | nil => rfl
  | cons c cs ih =>
    have hc : c ≠ '\n' := fun hc => h (hc ▸ List.mem_cons_self)
    show ((p.next c).advance cs).column = _
    rw [ih _ (mt (List.mem_cons_of_mem c) h), next, if_neg hc, List.length_cons]
    show p.column + 1 + cs.length = _
    omega

/-- No place is reached twice. -/
theorem advance_ne (p : Position) {cs : List Char} (h : cs ≠ []) : p.advance cs ≠ p := by
  intro he
  have hline := line_advance p cs
  rw [he] at hline
  have hnone : '\n' ∉ cs := List.count_eq_zero.1 (by omega)
  have hcolumn := column_advance p hnone
  rw [he] at hcolumn
  have := List.length_pos_iff.2 h
  omega

/-- The place tells how much of a text stands before it. -/
theorem advance_inj {p : Position} {a b a' b' : List Char} (h : a ++ b = a' ++ b')
    (hp : p.advance a = p.advance a') : a = a' ∧ b = b' := by
  rcases List.append_eq_append_iff.1 h with ⟨es, rfl, hb⟩ | ⟨es, rfl, hb⟩
  · by_cases hes : es = []
    · subst hes
      exact ⟨by simp, by simpa using hb⟩
    · rw [advance_append] at hp
      exact absurd hp.symm (advance_ne _ hes)
  · by_cases hes : es = []
    · subst hes
      exact ⟨by simp, by simpa using hb.symm⟩
    · rw [advance_append] at hp
      exact absurd hp (advance_ne _ hes)

end Position

/-- Every token but the end stands at a boundary of the text. -/
theorem Scanner.exists_boundary {p : Position} {cs : List Char} {t : Token} (h : t ∈ tokens ⟨p, cs⟩)
    (hk : t.kind ≠ .endOfInput) :
    ∃ front rest, cs = front ++ rest ∧ Boundary front rest ∧ t.start = p.advance front := by
  induction hlen : cs.length using Nat.strongRecOn generalizing p cs with
  | ind len ih =>
    subst hlen
    have hcs := splitGap_append .blank cs
    cases hgap : splitGap .blank cs with
    | mk g after =>
      rw [hgap] at hcs
      dsimp only at hcs
      cases after with
      | nil =>
        rw [tokens_of_rest_nil (by rw [hgap]), List.mem_singleton] at h
        rw [h] at hk
        exact absurd rfl hk
      | cons c r =>
        subst hcs
        rw [tokens_of_rest_cons (s := ⟨p, g ++ c :: r⟩) hgap] at h
        rcases List.mem_cons.1 h with rfl | h
        · exact ⟨g, c :: r, rfl, .gap hgap, rfl⟩
        · obtain ⟨front, rest, hr, hb, hstart⟩ := ih _ (splitLexeme_lt (congrArg Prod.snd hgap)) h rfl
          refine ⟨_, rest, ?_, .lexeme hgap hr hb, ?_⟩
          · rw [List.append_assoc, List.append_assoc, ← hr, splitLexeme_append]
          · rw [hstart, Position.advance_append, Position.advance_append]

end Erd
