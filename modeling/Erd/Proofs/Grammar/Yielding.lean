import Erd.Proofs.Grammar.Reading
import Erd.Proofs.Token.Lexeme

/-!
# What productions yield

`Yields p P` says that whatever `p` reads off scanned tokens has `P`, and that the tokens left are
scanned too.  It says nothing of a run that fails.

    Yields p P → (∀ a, P a → Yields (f a) Q) → Yields (p >>= f) Q            (Yields.bind)
    Yields step (∀ a ∈ ·, P a) → Yields (many step) (∀ a ∈ ·, P a)           (Yields.many)
-/

namespace Erd

namespace Cursor

/-- All tokens that the cursor can give come from a scanner. -/
def Scanned (c : Cursor) : Prop :=
  (∀ t ∈ c.rest, t.terminal.Scanned) ∧ c.beyond.terminal.Scanned

theorem Scanned.peek {c : Cursor} (h : c.Scanned) : c.peek.terminal.Scanned := by
  obtain ⟨_ | ⟨t, ts⟩, b⟩ := c
  · exact h.2
  · exact h.1 t List.mem_cons_self

theorem Scanned.advance {c : Cursor} (h : c.Scanned) : c.advance.Scanned :=
  ⟨fun t ht => h.1 t (List.mem_of_mem_tail ht), h.2⟩

theorem Scanned.second {c : Cursor} (h : c.Scanned) : c.second.terminal.Scanned := h.advance.peek

theorem scanned_ofTokens {ts : List Token} (h : ∀ t ∈ ts, t.terminal.Scanned) : (ofTokens ts).Scanned :=
  ⟨h, Terminal.scanned_endOfText⟩

end Cursor

namespace Production

variable {α β : Type}

/-- What the production reads off scanned tokens has `P`. -/
def Yields (p : Production α) (P : α → Prop) : Prop :=
  ∀ c a c', c.Scanned → p c = .ok a c' → c'.Scanned ∧ P a

variable {p q : Production α} {f : α → Production β} {P : α → Prop} {Q : β → Prop}

/-! ## Sequences and choices -/

theorem Yields.mono (h : Yields p P) {P' : α → Prop} (hP : ∀ a, P a → P' a) : Yields p P' :=
  fun c a c' hc e => ⟨(h c a c' hc e).1, hP a (h c a c' hc e).2⟩

theorem Yields.pure {a : α} (h : P a) : Yields (pure a) P := by
  rintro c _ _ hc ⟨⟩
  exact ⟨hc, h⟩

theorem Yields.none : Yields (Pure.pure none) fun o => ∀ a ∈ o, P a :=
  Yields.pure fun _ h => nomatch h

theorem Yields.some {a : α} (h : P a) : Yields (Pure.pure (some a)) fun o => ∀ b ∈ o, P b :=
  Yields.pure fun _ hb => Option.some.inj hb ▸ h

theorem Yields.throw {e : SyntaxError} : Yields (throw e : Production α) P := by
  rintro c _ _ _ ⟨⟩

theorem Yields.bind (hp : Yields p P) (hf : ∀ a, P a → Yields (f a) Q) : Yields (p >>= f) Q := by
  intro c b c'' hc e
  obtain ⟨a, c', hr, e⟩ := bind_eq_ok e
  obtain ⟨hc', ha⟩ := hp c a c' hc hr
  exact hf a ha c' b c'' hc' e

theorem Yields.ite {b : Prop} [Decidable b] (hp : Yields p P) (hq : Yields q P) :
    Yields (if b then p else q) P := by
  split
  · exact hp
  · exact hq

/-! ## Single tokens -/

theorem yields_peek : Yields peek (·.terminal.Scanned) := by
  rintro c _ _ hc ⟨⟩
  exact ⟨hc, hc.peek⟩

/-- `Yields` with the next token in view. -/
def YieldsAt (t : Token) (p : Production α) (P : α → Prop) : Prop :=
  ∀ c a c', c.Scanned → c.peek = t → p c = .ok a c' → c'.Scanned ∧ P a

theorem Yields.at (h : Yields p P) (t : Token) : YieldsAt t p P := fun c a c' hc _ e => h c a c' hc e

theorem Yields.ofPeek {f : Token → Production β}
    (h : ∀ t : Token, t.terminal.Scanned → YieldsAt t (f t) Q) : Yields (peek >>= f) Q :=
  fun c b c' hc e => h c.peek hc.peek c b c' hc rfl e

/-- The token that is taken is the one in view. -/
theorem yieldsAt_next {t : Token} {f : Token → Production β} (h : Yields (f t) Q) :
    YieldsAt t (next >>= f) Q := by
  rintro c b c' hc rfl e
  exact h c.advance b c' hc.advance e

theorem yields_second : Yields second (·.terminal.Scanned) := by
  rintro c _ _ hc ⟨⟩
  exact ⟨hc, hc.second⟩

theorem yields_advance : Yields advance (fun _ => True) := by
  rintro c _ _ hc ⟨⟩
  exact ⟨hc.advance, trivial⟩

theorem yields_next : Yields next (·.terminal.Scanned) :=
  yields_peek.bind fun _ ht => yields_advance.bind fun _ _ => Yields.pure ht

theorem yields_expected {what : Expectation} : Yields (expected what : Production α) P :=
  yields_peek.bind fun _ _ => Yields.throw

theorem yields_check {k : TokenKind} : Yields (check k) (fun _ => True) :=
  yields_peek.bind fun _ _ => Yields.pure trivial

theorem yields_accept {k : TokenKind} : Yields (accept k) (fun _ => True) :=
  yields_check.bind fun _ _ => (yields_advance.bind fun _ _ => Yields.pure trivial).ite (Yields.pure trivial)

theorem yields_acceptWord {w : String} : Yields (acceptWord w) (fun _ => True) :=
  yields_peek.bind fun _ _ => (yields_advance.bind fun _ _ => Yields.pure trivial).ite (Yields.pure trivial)

theorem expect_eq (k : TokenKind) (c : Cursor) :
    expect k c = if c.peek.kind = k then .ok c.peek c.advance
      else .error ⟨.expected (.kind k), c.peek⟩ c := by
  show (check k >>= _) c = _
  rw [bind_ok (show check k c = .ok (decide (c.peek.kind = k)) c from rfl)]
  by_cases hk : c.peek.kind = k
  · rw [if_pos hk, if_pos (decide_eq_true hk)]
    rfl
  · rw [if_neg hk, if_neg (by simp [hk])]
    rfl

theorem word_eq (what : Expectation) (c : Cursor) :
    word what c = if c.peek.kind.isWord then .ok c.peek.value c.advance
      else .error ⟨.expected what, c.peek⟩ c := by
  show (peek >>= _) c = _
  rw [peek_bind]
  by_cases hk : c.peek.kind.isWord = true
  · rw [if_pos hk, if_pos hk]
    rfl
  · rw [if_neg hk, if_neg hk]
    rfl

/-- An expected token is of its kind. -/
theorem yields_expect {k : TokenKind} : Yields (expect k) fun t => t.terminal.Scanned ∧ t.kind = k := by
  intro c t c' hc e
  rw [expect_eq] at e
  split at e
  · next hk =>
    cases e
    exact ⟨hc.advance, hc.peek, hk⟩
  · cases e

theorem yields_word {what : Expectation} : Yields (word what) IsWord := by
  intro c w c' hc e
  rw [word_eq] at e
  split at e
  · next hk =>
    cases e
    exact ⟨hc.advance, hc.peek.word hk⟩
  · cases e

theorem yields_string : Yields string (fun _ => True) :=
  yields_expect.bind fun _ _ => Yields.pure trivial

theorem yields_skipNewlines : Yields skipNewlines (fun _ => True) := by
  rintro c _ _ hc ⟨⟩
  exact ⟨⟨fun t ht => hc.1 t ((List.dropWhile_sublist _).mem ht), hc.2⟩, trivial⟩

/-! ## Repetition -/

section
variable {step : Production (Option α)} {item : Production α}

theorem yields_manyAtMost (h : Yields step fun o => ∀ a ∈ o, P a) (n : Nat) :
    Yields (manyAtMost step n) fun as => ∀ a ∈ as, P a := by
  induction n with
  | zero => exact Yields.pure nofun
  | succ n ih =>
    rw [manyAtMost_succ]
    refine h.bind fun o ho => ?_
    cases o with
    | none => exact Yields.pure nofun
    | some a =>
      refine ih.bind fun as has => Yields.pure ?_
      intro b hb
      rcases List.mem_cons.1 hb with rfl | hb
      · exact ho _ rfl
      · exact has b hb

theorem Yields.many (h : Yields step fun o => ∀ a ∈ o, P a) :
    Yields (many step) fun as => ∀ a ∈ as, P a :=
  fun c as c' hc e => yields_manyAtMost h (c.rest.length + 1) c as c' hc e

theorem Yields.commaList (h : Yields item P) :
    Yields (commaList item) fun as => as ≠ [] ∧ ∀ a ∈ as, P a := by
  have hafter : Yields (afterComma item) fun o => ∀ a ∈ o, P a :=
    yields_accept.bind fun _ _ =>
      (h.bind fun _ ha => Yields.some ha).ite Yields.none
  refine h.bind fun a ha => hafter.many.bind fun as has => Yields.pure ⟨List.cons_ne_nil _ _, ?_⟩
  intro b hb
  rcases List.mem_cons.1 hb with rfl | hb
  · exact ha
  · exact has b hb

end

end Production

end Erd
