import Erd.Proofs.Decimal.RoundTrip
import Erd.Proofs.Grammar.Call

/-!
# Default values as they are written

A default value is read back from its literal, numbers to the last bit.  An infinity and a NaN have no
literal of their own: they are read as words, and a minus sign in front of a word is an error.

    LexesTo v.literal v.terminals                                           (lexesTo_literal)
    v ≠ .number (.infinity true) →
      Reads defaultValue v.terminals (· = v.reread) (· ≠ .openParen)          (reads_terminals)
    Fails defaultValue (number (infinity true)).terminals                      (fails_negativeInfinity)
-/

namespace Erd

/-! ## Numbers and their signs -/

namespace Binary64

/-- A number that is not finite is a NaN or an infinity. -/
theorem eq_infinity {x : Binary64} (hf : x.isFinite = false) (hn : x.isNaN = false) :
    x = infinity x.isNegative := by
  rw [isFinite_eq, decide_eq_false_iff_not] at hf
  rw [isNaN_eq, decide_eq_false_iff_not] at hn
  have hm : x.magnitude = infinityMagnitude := by omega
  rw [infinity, ← hm, ofMagnitude_magnitude]

theorem isNaN_of_isFinite {x : Binary64} (hf : x.isFinite = true) : x.isNaN = false := by
  rw [isFinite_eq, decide_eq_true_eq] at hf
  rw [isNaN_eq, decide_eq_false_iff_not]
  omega

/-- The digits of a finite number. -/
def sourceDigits (x : Binary64) : List Char := (x.shortest .up).positional

theorem toSource_finite {x : Binary64} (hf : x.isFinite = true) : x.toSource = x.signed x.sourceDigits := by
  unfold toSource
  rw [if_neg (by simp [isNaN_of_isFinite hf]), if_pos hf]
  rfl

end Binary64

namespace DefaultValue

/-! ## Definitions -/

/-- The terminals of a default value. -/
def terminals (v : DefaultValue) : List Terminal := Erd.terminals v.literal.toList

/-- What a written default value is read as. -/
def reread : DefaultValue → DefaultValue
  | number x => if x.isFinite then number x else string x.toSource
  | v => v

theorem reread_eq {v : DefaultValue} (h : ∀ x, v = number x → x.isFinite = true) : v.reread = v := by
  cases v with
  | number x => exact if_pos (h x rfl)
  | _ => rfl

/-! ## Literals -/

theorem literal_number (x : Binary64) : (number x).literal = x.toSource := rfl

theorem lexesTo_negative {s : String} {ts : List Terminal} (h : LexesTo s ts) :
    LexesTo ("-" ++ s) (.mark '-' :: ts) := by
  intro p
  obtain ⟨toks, rfl, htoks⟩ := h (p.next '-')
  refine ⟨⟨.dash, "-", p⟩ :: toks, rfl, fun rest hr => ?_⟩
  have hd : "-".toList = ['-'] := rfl
  rw [String.toList_append, hd, List.append_assoc, List.singleton_append, Scanner.tokens_mark (by decide),
    htoks rest hr]
  rfl

theorem signed_eq (x : Binary64) (ds : List Char) :
    x.signed ds = (if x.isNegative then "-" else "") ++ String.ofList ds := by
  have hd : "-".toList = ['-'] := rfl
  unfold Binary64.signed
  apply String.toList_inj.1
  split <;> simp [hd]

theorem lexesTo_signed (x : Binary64) {ds : List Char} {ts : List Terminal} (h : LexesTo (String.ofList ds) ts) :
    LexesTo (x.signed ds) (if x.isNegative then .mark '-' :: ts else ts) := by
  rw [signed_eq]
  split
  · exact lexesTo_negative h
  · rwa [String.empty_append]

/-- The terminals of a number that is written in digits. -/
def digitTerminals (x : Binary64) : List Terminal :=
  if x.isNegative then [.mark '-', .number x.sourceDigits] else [.number x.sourceDigits]

/-- The terminals of an infinity. -/
def infinityTerminals (negative : Bool) : List Terminal :=
  if negative then [.mark '-', .word "inf"] else [.word "inf"]

theorem lexesTo_finite {x : Binary64} (hf : x.isFinite = true) :
    LexesTo (number x).literal (digitTerminals x) := by
  rw [literal_number, Binary64.toSource_finite hf]
  exact lexesTo_signed x (lexesTo_number (Decimal.isNumeral_positional _))

theorem lexesTo_infinity (b : Bool) : LexesTo (number (.infinity b)).literal (infinityTerminals b) := by
  have hs : (number (.infinity b)).literal = (Binary64.infinity b).signed ['i', 'n', 'f'] := by
    cases b <;> rfl
  have hb : (Binary64.infinity b).isNegative = b := by cases b <;> rfl
  rw [hs]
  have h := lexesTo_signed (.infinity b) (lexesTo_word (w := "inf") (by decide))
  rw [hb] at h
  exact h

theorem lexesTo_literal (v : DefaultValue) : LexesTo v.literal v.terminals := by
  obtain ⟨ts, h⟩ : ∃ ts, LexesTo v.literal ts := by
    cases v with
    | boolean b =>
      cases b with
      | true => exact ⟨_, lexesTo_word (w := "true") (by decide)⟩
      | false => exact ⟨_, lexesTo_word (w := "false") (by decide)⟩
    | null => exact ⟨_, lexesTo_word (w := "null") (by decide)⟩
    | number x =>
      cases hf : x.isFinite with
      | true => exact ⟨_, lexesTo_finite hf⟩
      | false =>
        cases hn : x.isNaN with
        | true =>
          have hs : (number x).literal = "NaN" := if_pos hn
          rw [hs]
          exact ⟨_, lexesTo_word (by decide)⟩
        | false =>
          rw [Binary64.eq_infinity hf hn]
          exact ⟨_, lexesTo_infinity _⟩
    | string s =>
      cases hc : isCall s with
      | true =>
        obtain ⟨w, pieces, h⟩ := isCallOf_of_isCall hc
        have hs : (string s).literal = s := if_pos hc
        rw [hs]
        exact ⟨_, h.lexesTo⟩
      | false =>
        have hs : (string s).literal = quote s := if_neg (by simp [hc])
        rw [hs]
        exact ⟨_, lexesTo_quote s⟩
  rwa [terminals, h.spells.terminals_eq]

end DefaultValue

/-! ## Reading -/

namespace Production

theorem reads_numberOf {t : Token} {x : Binary64} (h : Binary64.ofText? t.value = some x) :
    Reads (numberOf t) [] (· = x) Any := by
  unfold numberOf
  rw [h]
  exact Reads.pure rfl

/-- Digits as a default value. -/
theorem reads_defaultValue_digits {ds : List Char} {x : Binary64}
    (h : Binary64.ofText? (String.ofList ds) = some x) :
    Reads defaultValue [.number ds] (· = .number x) Any := by
  refine Reads.peek fun tok htok => ?_
  obtain ⟨hk, hv⟩ : tok.kind = .number ∧ tok.value = String.ofList ds := Terminal.mk.inj htok
  rw [hk]
  refine reads_advance.then leads_any fun _ _ => ?_
  refine (reads_numberOf (by rw [hv]; exact h)).skip leads_any ?_
  rintro _ rfl
  exact Reads.pure rfl

/-- Digits behind a minus sign. -/
theorem reads_defaultValue_negative {ds : List Char} {x : Binary64}
    (h : Binary64.ofText? (String.ofList ds) = some x) :
    Reads defaultValue [.mark '-', .number ds] (· = .number x.neg) Any := by
  refine Reads.peek fun tok htok => ?_
  have hk : tok.kind = .dash := congrArg Terminal.kind htok
  rw [hk]
  refine Reads.second fun tok' htok' => ?_
  have hk' : tok'.kind = .number := congrArg Terminal.kind htok'
  rw [if_pos hk']
  refine reads_advance.then leads_any fun _ _ => reads_next.then leads_any ?_
  rintro tok'' htok''
  have hv : tok''.value = String.ofList ds := congrArg Terminal.value htok''
  refine (reads_numberOf (by rw [hv]; exact h)).skip leads_any ?_
  rintro _ rfl
  exact Reads.pure rfl

theorem reads_wordValue_true : Reads (wordValue "true") [] (· = .boolean true) Any := Reads.pure rfl

theorem reads_wordValue_false : Reads (wordValue "false") [] (· = .boolean false) Any := Reads.pure rfl

theorem reads_wordValue_null : Reads (wordValue "null") [] (· = .null) Any := Reads.pure rfl

/-- A word that is no value of its own stands for itself. -/
theorem reads_wordValue_bare {w : String} (hw : w ∉ valueWords) :
    Reads (wordValue w) [] (· = .string w) (· ≠ .openParen) := by
  simp only [valueWords, List.mem_cons, List.not_mem_nil, or_false, not_or] at hw
  obtain ⟨h1, h2, h3, h4, h5, h6⟩ := hw
  unfold wordValue
  rw [if_neg (by simp [h1, h2]), if_neg (by simp [h3, h4]), if_neg (by simp [h5, h6])]
  refine reads_check_other.skip (leads_nil fun _ h => h) ?_
  rintro _ rfl
  exact Reads.pure rfl

theorem reads_defaultValue_string (s : String) : Reads defaultValue [.string s] (· = .string s) Any := by
  refine Reads.peek fun tok htok => ?_
  obtain ⟨hk, hv⟩ : tok.kind = .string ∧ tok.value = s := Terminal.mk.inj htok
  rw [hk, hv]
  exact reads_advance.then leads_any fun _ _ => Reads.pure rfl

/-- A minus sign in front of anything but digits. -/
theorem defaultValue_fails {t : Terminal} (h : t.kind ≠ .number) (ts : List Terminal) :
    Fails defaultValue (.mark '-' :: t :: ts) := by
  intro c rest hc
  obtain ⟨tok, c', htok, hc', hp, ha⟩ := terminals_eq_cons hc
  obtain ⟨tok', -, htok', -, hp', -⟩ := terminals_eq_cons hc'
  have hk : c.peek.kind = .dash := by
    rw [hp]
    exact congrArg Terminal.kind htok
  have hk' : c.second.kind ≠ .number := by
    rw [show c.second = c'.peek by rw [← ha]; rfl, hp']
    exact (congrArg Terminal.kind htok').trans_ne h
  unfold defaultValue
  rw [peek_bind, hk]
  dsimp only
  rw [second_bind, if_neg hk']
  exact ⟨_, _, rfl⟩

end Production

namespace DefaultValue

open Production

/-- The terminals that the literal is cut into, whichever they are found to be. -/
theorem reads_of_lexesTo {v : DefaultValue} {ts : List Terminal} {F : TokenKind → Prop}
    (hs : LexesTo v.literal ts) (h : Reads defaultValue ts (· = v.reread) F)
    (hF : F = Any ∨ F = (· ≠ .openParen)) :
    Reads defaultValue v.terminals (· = v.reread) (· ≠ .openParen) := by
  rw [terminals, hs.spells.terminals_eq]
  rcases hF with rfl | rfl
  · exact h.ofAny
  · exact h

theorem reads_finite {x : Binary64} (hf : x.isFinite = true) :
    Reads defaultValue (digitTerminals x) (· = .number x) Any := by
  have hx := x.ofMagnitude_magnitude
  have hdigits : Binary64.ofText? (String.ofList x.sourceDigits) = some (.ofMagnitude false x.magnitude) :=
    Binary64.ofText_positional hf
  unfold digitTerminals
  cases hneg : x.isNegative with
  | true =>
    have h := reads_defaultValue_negative hdigits
    rw [Binary64.neg_ofMagnitude x.magnitude_lt, Bool.not_false, ← hneg, hx] at h
    exact h
  | false =>
    have h := reads_defaultValue_digits hdigits
    rw [← hneg, hx] at h
    exact h

theorem reads_boolean (b : Bool) :
    Reads defaultValue (boolean b).terminals (· = boolean b) (· ≠ .openParen) := by
  cases b with
  | true =>
    exact reads_of_lexesTo (lexesTo_word (w := "true") (by decide))
      (reads_defaultValue_word reads_wordValue_true) (Or.inl rfl)
  | false =>
    exact reads_of_lexesTo (lexesTo_word (w := "false") (by decide))
      (reads_defaultValue_word reads_wordValue_false) (Or.inl rfl)

/-- A number that is not finite is read as the word that is written for it. -/
theorem reads_number {x : Binary64} (h : number x ≠ .number (.infinity true)) :
    Reads defaultValue (number x).terminals (· = (number x).reread) (· ≠ .openParen) := by
  cases hf : x.isFinite with
  | true =>
    refine reads_of_lexesTo (lexesTo_finite hf) ?_ (Or.inl rfl)
    rw [reread_eq (by rintro _ ⟨⟩; exact hf)]
    exact reads_finite hf
  | false =>
    have hr : (number x).reread = .string x.toSource := if_neg (by simp [hf])
    cases hn : x.isNaN with
    | true =>
      have hs : x.toSource = "NaN" := if_pos hn
      have hlexes : LexesTo (number x).literal [.word "NaN"] := by
        rw [literal_number, hs]
        exact lexesTo_word (by decide)
      refine reads_of_lexesTo hlexes ?_ (Or.inr rfl)
      rw [hr, hs]
      exact reads_defaultValue_word (reads_wordValue_bare (by decide))
    | false =>
      have hx := Binary64.eq_infinity hf hn
      have hneg : x.isNegative = false := by
        rw [Bool.eq_false_iff]
        intro hneg
        rw [hneg] at hx
        exact h (congrArg number hx)
      rw [hneg] at hx
      rw [hx] at hr ⊢
      refine reads_of_lexesTo (lexesTo_infinity false) ?_ (Or.inr rfl)
      rw [hr]
      exact reads_defaultValue_word (reads_wordValue_bare (by decide))

theorem reads_text (s : String) :
    Reads defaultValue (string s).terminals (· = string s) (· ≠ .openParen) := by
  cases hc : isCall s with
  | true =>
    obtain ⟨w, pieces, h⟩ := isCallOf_of_isCall hc
    have hlexes : LexesTo (string s).literal (callTerminals w pieces) := by
      rw [show (string s).literal = s from if_pos hc]
      exact h.lexesTo
    exact reads_of_lexesTo hlexes h.reads (Or.inl rfl)
  | false =>
    have hlexes : LexesTo (string s).literal [.string s] := by
      rw [show (string s).literal = quote s from if_neg (by simp [hc])]
      exact lexesTo_quote s
    exact reads_of_lexesTo hlexes (reads_defaultValue_string s) (Or.inl rfl)

theorem reads_terminals {v : DefaultValue} (h : v ≠ .number (.infinity true)) :
    Reads defaultValue v.terminals (· = v.reread) (· ≠ .openParen) := by
  cases v with
  | boolean b => exact reads_boolean b
  | number x => exact reads_number h
  | string s => exact reads_text s
  | null =>
    exact reads_of_lexesTo (lexesTo_word (w := "null") (by decide))
      (reads_defaultValue_word reads_wordValue_null) (Or.inl rfl)

/-- What is written for a negative infinity is no default value. -/
theorem fails_negativeInfinity : Fails defaultValue (number (.infinity true)).terminals := by
  rw [terminals, (lexesTo_infinity true).spells.terminals_eq]
  exact defaultValue_fails (by decide) []

end DefaultValue

end Erd
