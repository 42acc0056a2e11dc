import Erd.Proofs.Token.Lexeme

/-!
# Texts with more behind them

A lexeme is cut off alike when more text stands behind, as long as it did not reach to the end: whatever
ended it ends it again.

    (splitLexeme c r).2 ≠ [] → … → splitLexeme c (r ++ rest) = (…, (splitLexeme c r).2 ++ rest)   (splitLexeme_more)
    t ∈ terminals cs → t.kind = .string → t.value.toList.length < cs.length                  (length_lt_of_string)
-/

namespace Erd

/-! ## Lengths -/

/-- A string takes two characters more than its value, or one if it is not closed. -/
theorem splitLexeme_string {c : Char} {r : List Char} (h : (splitLexeme c r).1.kind = .string) :
    (splitLexeme c r).1.value.length < (splitLexeme c r).1.text.length ∧
      ((splitLexeme c r).2 ≠ [] →
        (splitLexeme c r).1.value.length + 1 < (splitLexeme c r).1.text.length) := by
  have hbefore := before_splitLexeme c r
  generalize splitLexeme c r = cut at h hbefore ⊢
  obtain ⟨l, rest⟩ := cut
  dsimp only at h hbefore ⊢
  cases hbefore with
  | mark hm =>
    obtain ⟨hc, rfl⟩ := mem_marks.1 hm
    exact absurd h (markKind_ne_string hc).1
  | keyword _ _ hk =>
    rw [← wordKind_of_mem hk] at h
    exact absurd (wordKind_isWord _) (by rw [show wordKind _ = .string from h]; decide)
  | lessGreater | less | identifier | whole | fraction | unknown => cases h
  | string hq hb =>
    have hlen := hb.length_le
    simp only [List.length_cons, List.length_append, List.length_nil]
    omega
  | openString hq hb =>
    have hlen := hb.length_le
    simp only [List.length_cons]
    exact ⟨by omega, fun hr => absurd rfl hr⟩
  | openEscape hq hb =>
    have hlen := hb.length_le
    simp only [List.length_cons, List.length_append, List.length_nil]
    exact ⟨by omega, fun hr => absurd rfl hr⟩

/-- Any other lexeme stands for itself. -/
theorem splitLexeme_plain {c : Char} {r : List Char} (h : (splitLexeme c r).1.kind ≠ .string) :
    (splitLexeme c r).1.value = (splitLexeme c r).1.text := by
  have hbefore := before_splitLexeme c r
  generalize splitLexeme c r = cut at h hbefore ⊢
  obtain ⟨l, rest⟩ := cut
  cases hbefore with
  | string | openString | openEscape => exact absurd rfl h
  | _ => rfl

theorem terminals_kind_ne_endOfInput {cs : List Char} {t : Terminal} (h : t ∈ terminals cs) :
    t.kind ≠ .endOfInput := by
  fun_induction terminals cs with
  | case1 cs e => cases h
  | case2 cs c r e hlt ih =>
    rcases List.mem_cons.1 h with rfl | h
    · exact Scanner.splitLexeme_kind_ne_endOfInput c r
    · exact ih h

/-- The tokens of a source are those in front of its end, and the end. -/
theorem tokenize_eq_append (s : String) :
    ∃ ts position, tokenize s = ts ++ [.endAt position] ∧ ∀ t ∈ ts, t.kind ≠ .endOfInput := by
  have h := terminal_tokenize s
  obtain ⟨ts, us, hs, hts, hus⟩ := List.map_eq_append_iff.1 h
  obtain ⟨⟨k, v, position⟩, rfl, hu⟩ := List.map_eq_singleton_iff.1 hus
  refine ⟨ts, position, ?_, fun t ht => ?_⟩
  · cases hu
    exact hs
  · have hm : t.terminal ∈ terminals s.toList := hts ▸ List.mem_map_of_mem ht
    exact terminals_kind_ne_endOfInput hm

/-- A string is shorter than a text that holds it. -/
theorem length_lt_of_string {cs : List Char} {t : Terminal} (h : t ∈ terminals cs) (hk : t.kind = .string) :
    t.value.toList.length < cs.length := by
  fun_induction terminals cs with
  | case1 cs e => cases h
  | case2 cs c r e hlt ih =>
    rcases List.mem_cons.1 h with rfl | h
    · have hg := congrArg List.length (splitGap_append .blank cs)
      have hl := congrArg List.length (splitLexeme_append c r)
      have hs := (splitLexeme_string hk).1
      rw [List.length_append, e] at hg
      rw [List.length_append] at hl
      simp only [Lexeme.terminal, String.toList_ofList]
      omega
    · exact Nat.lt_trans (ih h) hlt

/-! ## More text -/

theorem splitLexeme_more {c : Char} {r : List Char} (h : (splitLexeme c r).2 ≠ [])
    (hdot : (splitLexeme c r).2 ≠ ['.']) (rest : List Char) :
    splitLexeme c (r ++ rest) = ((splitLexeme c r).1, (splitLexeme c r).2 ++ rest) := by
  have hmore := splitLexeme_endsAs (fun _ => h) (.more h hdot rest)
  rwa [← List.append_assoc, splitLexeme_tail] at hmore

/-- A text that begins with no gap still begins with none. -/
theorem splitGap_more {c : Char} {r : List Char} (h : (splitGap .blank (c :: r)).1 = []) (hr : r ≠ [])
    (rest : List Char) : splitGap .blank (c :: (r ++ rest)) = ([], c :: (r ++ rest)) := by
  obtain ⟨d, r, rfl⟩ := List.exists_cons_of_ne_nil hr
  by_cases hc : c = '/'
  · subst hc
    by_cases hd : d = '/'
    · subst hd
      simp [splitGap, cutMore] at h
    · by_cases hd' : d = '*'
      · subst hd'
        simp [splitGap, cutMore] at h
      · simp [splitGap, hd, hd', show isSpacing '/' = false from rfl]
  · cases hs : isSpacing c with
    | true => simp [splitGap, hc, hs, cutMore] at h
    | false => exact splitGap_lexeme hs hc _

end Erd
