import Erd.Proofs.Token.Gap

/-!
# The one cut of a text into gaps and lexemes

A cover of a text is a list of pieces, each a gap and the lexeme behind it, and a last gap.  Every text has
one cover and no other.  Its tokens are those of the lexemes, each at the place that the text in front of
it leads to, and the end token, which every later step gives again.

    (Position.behind front).advance cs = .behind (front ++ cs)                        (advance_behind)
    Covered ps last → Scanner.tokens ⟨.behind front, written ps last⟩ = tokensBehind front ps ++ [.endAt …]
                                                                                   (Covered.tokens_eq)
    ∃ c : Cover, c.source = text.toList ∧ tokenize text = c.tokens ∧ …                (tokenize_cover)
-/

namespace Erd

/-! ## Definitions -/

/-- A gap and the lexeme behind it. -/
@[ext]
structure Piece where
  gap : List Char
  lexeme : Lexeme

/-- The text of pieces and a last gap. -/
def written : List Piece → List Char → List Char
  | [], last => last
  | p :: ps, last => p.gap ++ (p.lexeme.text ++ written ps last)

/-- Each gap and each lexeme ends where what stands behind it ends it. -/
inductive Covered : List Piece → List Char → Prop where
  | last {g : List Char} (hg : Gap g []) : Covered [] g
  | piece {g last : List Char} {l : Lexeme} {ps : List Piece} (hg : Gap g (l.text ++ written ps last))
      (hl : l.Before (written ps last)) (h : Covered ps last) : Covered (⟨g, l⟩ :: ps) last

/-- A text cut into gaps and lexemes. -/
@[ext]
structure Cover where
  pieces : List Piece
  last : List Char
  covered : Covered pieces last

/-- The place behind a text: as many lines down as it has line breaks, and as many columns on as characters
stand behind the last of them. -/
def Position.behind (front : List Char) : Position :=
  ⟨1 + front.count '\n', 1 + (front.reverse.takeWhile (· ≠ '\n')).length⟩

/-- The tokens of pieces that stand behind a text. -/
def tokensBehind (front : List Char) : List Piece → List Token
  | [] => []
  | p :: ps => .ofLexeme p.lexeme (.behind (front ++ p.gap)) :: tokensBehind (front ++ p.gap ++ p.lexeme.text) ps

namespace Cover

def source (c : Cover) : List Char := written c.pieces c.last

/-- A token for each lexeme and one for the end. -/
def tokens (c : Cover) : List Token := tokensBehind [] c.pieces ++ [.endAt (.behind c.source)]

end Cover

/-! ## Places -/

namespace Position

theorem next_behind (front : List Char) (c : Char) : (behind front).next c = behind (front ++ [c]) := by
  by_cases hc : c = '\n'
  · simp [next, behind, hc, Nat.add_assoc]
  · simp [next, behind, hc, Nat.add_comm]

theorem advance_behind (front cs : List Char) : (behind front).advance cs = behind (front ++ cs) := by
  induction cs generalizing front with
  | nil => rw [List.append_nil]; rfl
  | cons c cs ih =>
    show ((behind front).next c).advance cs = _
    rw [next_behind, ih, List.append_assoc]
    rfl

end Position

/-! ## Pieces -/

/-- What stands in front of a covered text is cut off piece by piece. -/
theorem Covered.split {p : Piece} {ps : List Piece} {last : List Char} (h : Covered (p :: ps) last) :
    ∃ c r, splitGap .blank (written (p :: ps) last) = (p.gap, c :: r) ∧
      splitLexeme c r = (p.lexeme, written ps last) ∧ Covered ps last := by
  cases h with
  | piece hg hl h =>
    obtain ⟨c, r, htext, hsplit⟩ := before_iff.1 hl
    have hgap := gap_iff.1 hg
    rw [htext] at hgap
    refine ⟨c, r, ?_, hsplit, h⟩
    rw [written, htext]
    exact hgap

theorem Covered.split_last {last : List Char} (h : Covered [] last) : splitGap .blank last = (last, []) := by
  cases h with
  | last hg => simpa using gap_iff.1 hg

/-- A text has at most one cover. -/
theorem Covered.unique {ps qs : List Piece} {last last' : List Char} (h : Covered ps last) (h' : Covered qs last')
    (hw : written ps last = written qs last') : ps = qs ∧ last = last' := by
  induction ps generalizing qs with
  | nil =>
    have hcut := h.split_last
    cases qs with
    | nil => exact ⟨rfl, hw⟩
    | cons q qs =>
      obtain ⟨c, r, hgap, -, -⟩ := h'.split
      rw [← hw, written, hcut] at hgap
      cases hgap
  | cons p ps ih =>
    obtain ⟨c, r, hgap, hlexeme, h⟩ := h.split
    cases qs with
    | nil =>
      rw [hw, written, h'.split_last] at hgap
      cases hgap
    | cons q qs =>
      obtain ⟨c', r', hgap', hlexeme', h'⟩ := h'.split
      rw [hw, hgap'] at hgap
      obtain ⟨hg, hr⟩ := Prod.mk.inj hgap
      obtain ⟨rfl, rfl⟩ := List.cons.inj hr
      rw [hlexeme'] at hlexeme
      obtain ⟨hl, hrest⟩ := Prod.mk.inj hlexeme
      obtain ⟨rfl, rfl⟩ := ih h h' hrest.symm
      exact ⟨congrArg (· :: ps) (Piece.ext hg.symm hl.symm), rfl⟩

/-- Every text has a cover. -/
theorem exists_covered (cs : List Char) : ∃ ps last, Covered ps last ∧ written ps last = cs := by
  induction hlen : cs.length using Nat.strongRecOn generalizing cs with
  | ind len ih =>
    subst hlen
    have happ := splitGap_append .blank cs
    have hgap : Gap (splitGap .blank cs).1 (splitGap .blank cs).2 := gap_iff.2 (by rw [happ])
    cases h : splitGap .blank cs with
    | mk g rest =>
      rw [h] at happ hgap
      cases rest with
      | nil =>
        rw [List.append_nil] at happ
        exact ⟨[], g, .last hgap, happ⟩
      | cons c r =>
        obtain ⟨ps, last, hps, hw⟩ := ih _ (splitLexeme_lt (congrArg Prod.snd h)) (splitLexeme c r).2 rfl
        have htext := splitLexeme_append c r
        have hl := before_splitLexeme c r
        rw [← hw] at htext hl
        rw [← htext] at hgap happ
        exact ⟨⟨g, (splitLexeme c r).1⟩ :: ps, last, .piece hgap hl hps, happ⟩

/-! ## Tokens -/

namespace Scanner

theorem take_succ (k : Nat) (s : Scanner) : s.take (k + 1) = s.next.1 :: s.next.2.take k := rfl

/-- Steps at the end of a text give its end. -/
theorem take_end (k : Nat) (p : Position) : take k ⟨p, []⟩ = List.replicate k (.endAt p) := by
  induction k with
  | zero => rfl
  | succ k ih => exact congrArg (Token.endAt p :: ·) ih

end Scanner

/-- Steps through a covered text and further ones at its end. -/
theorem Covered.take_eq {ps : List Piece} {last : List Char} (h : Covered ps last) (front : List Char) (k : Nat) :
    Scanner.take (ps.length + k) ⟨.behind front, written ps last⟩ =
      tokensBehind front ps ++ List.replicate k (.endAt (.behind (front ++ written ps last))) := by
  induction ps generalizing front with
  | nil =>
    have hnext := Scanner.next_of_last (s := ⟨.behind front, last⟩) h.split_last
    rw [Position.advance_behind] at hnext
    rw [List.length_nil, Nat.zero_add]
    cases k with
    | zero => rfl
    | succ k =>
      rw [written, Scanner.take_succ, hnext, Scanner.take_end]
      rfl
  | cons p ps ih =>
    obtain ⟨c, r, hgap, hlexeme, h⟩ := h.split
    have hnext := Scanner.next_of_lexeme (s := ⟨.behind front, written (p :: ps) last⟩) hgap
    rw [hlexeme, Position.advance_behind, Position.advance_behind] at hnext
    rw [List.length_cons, Nat.add_right_comm, Scanner.take_succ, hnext, ih h]
    simp [tokensBehind, written]

/-- The tokens of a covered text. -/
theorem Covered.tokens_eq {ps : List Piece} {last : List Char} (h : Covered ps last) (front : List Char) :
    Scanner.tokens ⟨.behind front, written ps last⟩ =
      tokensBehind front ps ++ [.endAt (.behind (front ++ written ps last))] := by
  induction ps generalizing front with
  | nil =>
    have hlast := h.split_last
    rw [written, Scanner.tokens_of_rest_nil (by rw [hlast]), Position.advance_behind]
    rfl
  | cons p ps ih =>
    obtain ⟨c, r, hgap, hlexeme, h⟩ := h.split
    have htokens := Scanner.tokens_of_rest_cons (s := ⟨.behind front, written (p :: ps) last⟩) hgap
    rw [hlexeme, Position.advance_behind, Position.advance_behind, ih h] at htokens
    rw [htokens]
    simp [tokensBehind, written]

theorem length_tokensBehind (front : List Char) (ps : List Piece) : (tokensBehind front ps).length = ps.length := by
  induction ps generalizing front with
  | nil => rfl
  | cons p ps ih => exact congrArg (· + 1) (ih _)

theorem Lexeme.Before.kind_ne_endOfInput {l : Lexeme} {rest : List Char} (h : l.Before rest) :
    l.kind ≠ .endOfInput := by
  obtain ⟨c, r, -, hl⟩ := before_iff.1 h
  have hkind := Scanner.splitLexeme_kind_ne_endOfInput c r
  rwa [hl] at hkind

/-- No lexeme stands for the end. -/
theorem Covered.kind_ne_endOfInput {ps : List Piece} {last : List Char} (h : Covered ps last) (front : List Char) :
    ∀ t ∈ tokensBehind front ps, t.kind ≠ .endOfInput := by
  induction h generalizing front with
  | last hg => nofun
  | piece hg hl _ ih => exact List.forall_mem_cons.2 ⟨hl.kind_ne_endOfInput, ih _⟩

/-- Every text is cut in one way into gaps and lexemes.  Its tokens are those of the lexemes, each at the place
where the lexeme begins, and one for the end of the text, which every later step gives again. -/
theorem tokenize_cover (text : String) : ∃ c : Cover, c.source = text.toList ∧
    (∀ c' : Cover, c'.source = text.toList → c' = c) ∧ tokenize text = c.tokens ∧
    (∃ ts, tokenize text = ts ++ [.endAt (.behind text.toList)] ∧ ∀ t ∈ ts, t.kind ≠ .endOfInput) ∧
    ∀ k, (Scanner.ofText text).take ((tokenize text).length + k) =
      tokenize text ++ List.replicate k (.endAt (.behind text.toList)) := by
  obtain ⟨ps, last, h, hw⟩ := exists_covered text.toList
  have htokens : tokenize text = tokensBehind [] ps ++ [.endAt (.behind text.toList)] := by
    have := h.tokens_eq []
    rwa [hw] at this
  refine ⟨⟨ps, last, h⟩, hw, ?_, ?_, ⟨_, htokens, h.kind_ne_endOfInput []⟩, fun k => ?_⟩
  · rintro ⟨qs, last', h'⟩ hw'
    obtain ⟨hpieces, hlast⟩ := h'.unique h (hw'.trans hw.symm)
    exact Cover.ext hpieces hlast
  · rw [htokens, ← hw]
    rfl
  · have htake := h.take_eq [] (1 + k)
    rw [hw] at htake
    rw [htokens, List.length_append, length_tokensBehind, List.length_singleton, Nat.add_assoc, List.append_assoc]
    rw [Nat.add_comm 1 k] at htake ⊢
    exact htake

/-- No digit follows the point, and the string is never closed. -/
example : tokenize "7.\n<>'a" =
    [⟨.number, "7", ⟨1, 1⟩⟩, ⟨.dot, ".", ⟨1, 2⟩⟩, ⟨.newline, "\n", ⟨1, 3⟩⟩, ⟨.lessGreater, "<>", ⟨2, 1⟩⟩,
      ⟨.string, "a", ⟨2, 3⟩⟩, ⟨.endOfInput, "", ⟨2, 5⟩⟩] := by
  decide +kernel

end Erd
