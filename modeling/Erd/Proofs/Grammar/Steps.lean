import Erd.Proofs.Grammar.Lookahead

/-!
# Steps of a predictive production

The rules for what all productions are made of: single tokens, line breaks, lists and bodies in braces.
A step of `many` has to take a token with each value, so that the loop ends with the tokens.

    Predictive p Any F → Predictive q (fun j => j ≠ k ∧ H j) F →
      Predictive (accept k >>= fun b => if b then p else q) H F                   (Predictive.ifAccept)
    Steps step H F → Predictive (many step) H fun _ => F none                     (Steps.many)
-/

namespace Erd

namespace Production

open Cursor

variable {α β : Type} {p q r : Production α} {H : TokenKind → Prop} {F : α → TokenKind → Prop}
  {c d : Cursor}

/-! ## Single tokens -/

theorem check_bind (k : TokenKind) (f : Bool → Production β) (c : Cursor) :
    (check k >>= f) c = f (decide (c.peek.kind = k)) c := rfl

theorem accept_eq (k : TokenKind) (c : Cursor) :
    accept k c = if c.peek.kind = k then .ok true c.advance else .ok false c := by
  show (check k >>= _) c = _
  rw [check_bind]
  by_cases hk : c.peek.kind = k
  · rw [if_pos hk, decide_eq_true hk]
    rfl
  · rw [if_neg hk, decide_eq_false hk]
    rfl

theorem acceptWord_eq (w : String) (c : Cursor) :
    acceptWord w c = if (c.peek.kind.isWord && asciiLower c.peek.value == w) = true then .ok true c.advance
      else .ok false c := by
  show (peek >>= _) c = _
  rw [peek_bind]
  cases c.peek.kind.isWord && asciiLower c.peek.value == w <;> rfl

theorem predictive_accept (k : TokenKind) :
    Predictive (accept k) H fun b j => b = true ∨ (j ≠ k ∧ H j) := by
  have hpure : Predictive (pure false) (fun j => j ≠ k ∧ H j) fun b j => b = true ∨ (j ≠ k ∧ H j) :=
    .pure fun _ h => h.resolve_left nofun
  refine .choose (·.kind = k) ?_ hpure ?_ fun _ h => h
  · intro t ht
    refine ⟨pure true, fun c hc => ?_, .pure fun _ _ => trivial⟩
    exact (accept_eq k c).trans (if_pos ((Token.kind_eq hc).trans ht))
  · intro c hc
    exact (accept_eq k c).trans (if_neg hc)

theorem predictive_acceptWord (w : String) :
    Predictive (acceptWord w) H fun b j => b = true ∨ (j.isWord = false ∧ H j) := by
  have hpure : Predictive (pure false) (fun j => j.isWord = false ∧ H j)
      fun b j => b = true ∨ (j.isWord = false ∧ H j) := .pure fun _ h => h.resolve_left nofun
  refine .choose (fun t => (t.kind.isWord && asciiLower t.value == w) = true) ?_ hpure ?_ ?_
  · intro t ht
    refine ⟨pure true, fun c hc => ?_, .pure fun _ _ => trivial⟩
    refine (acceptWord_eq w c).trans (if_pos ?_)
    rwa [Token.kind_eq hc, Token.value_eq hc]
  · intro c hc
    exact (acceptWord_eq w c).trans (if_neg hc)
  · intro u hu
    exact ⟨by rw [hu.1]; simp, hu.2⟩

theorem Predictive.ifAccept {k : TokenKind} (hp : Predictive p Any F)
    (hq : Predictive q (fun j => j ≠ k ∧ H j) F) :
    Predictive (accept k >>= fun b => if b = true then p else q) H F := by
  refine (predictive_accept k).bind fun b => ?_
  cases b with
  | true => exact hp.widen fun _ _ => Or.inl rfl
  | false => exact hq.widen fun _ h => Or.inr h

theorem Predictive.ifCheck {k : TokenKind} (hp : Predictive p (· = k) F) (hq : Predictive q (· ≠ k) F) :
    Predictive (check k >>= fun b => if b = true then p else q) Any F := by
  refine .either (· = k) hp hq ?_ ?_ (fun _ h => ⟨h, trivial⟩) fun _ h => ⟨h, trivial⟩
  · intro c hc
    rw [check_bind, if_pos (decide_eq_true hc)]
  · intro c hc
    rw [check_bind, if_neg (by simpa using hc)]

theorem takes_expect {k : TokenKind} {t : Terminal} {f : Token → Production α} (ht : t.kind = k)
    (h : ∀ tok : Token, tok.terminal = t → f tok = r) : Takes (expect k >>= f) t r := by
  intro c hc
  rw [bind_ok ((expect_eq k c).trans (if_pos ((Token.kind_eq hc).trans ht))), h _ hc]

theorem refuses_expect {k : TokenKind} {t : Terminal} {f : Token → Production α} (ht : t.kind ≠ k) :
    Refuses (expect k >>= f) t (.expected (.kind k)) := by
  refine Refuses.bind fun c hc => ⟨c, ?_⟩
  rw [expect_eq, if_neg (by rw [Token.kind_eq hc]; exact ht)]

theorem Predictive.expect {k : TokenKind} (hp : Predictive p Any F) (hk : H k) :
    Predictive (expect k >>= fun _ => p) H F :=
  .take (·.kind = k) (fun _ ht => ⟨p, takes_expect ht fun _ _ => rfl, hp⟩)
    (fun _ ht => ⟨_, refuses_expect ht⟩) ⟨k, ""⟩ rfl hk

theorem predictive_word (what : Expectation) (h : H .identifier) :
    Predictive (word what) H fun _ => Any := by
  refine .take (·.kind.isWord = true) ?_ ?_ ⟨.identifier, ""⟩ rfl h
  · intro t ht
    refine ⟨pure t.value, fun c hc => ?_, .pure fun _ _ => trivial⟩
    rw [word_eq, Token.kind_eq hc, if_pos ht, Token.value_eq hc]
    rfl
  · intro t ht
    refine ⟨.expected what, fun c hc => ⟨c, ?_⟩⟩
    rw [word_eq, if_neg (by rw [Token.kind_eq hc]; exact ht)]

theorem predictive_string (h : H .string) : Predictive string H fun _ => Any :=
  .take (·.kind = .string)
    (fun t ht => ⟨pure t.value, takes_expect ht fun _ htok => congrArg (pure ·.value) htok,
      .pure fun _ _ => trivial⟩)
    (fun _ ht => ⟨_, refuses_expect ht⟩) ⟨.string, ""⟩ rfl h

/-! ## Line breaks -/

theorem dropWhile_newlines {n : Nat} (hd : d.Closed) (h : ∀ t ∈ d.ahead n, t.kind = .newline)
    (h' : (d.skip n).peek.kind ≠ .newline) :
    d.rest.dropWhile (·.kind == .newline) = d.rest.drop n := by
  induction n generalizing d with
  | zero =>
    obtain ⟨_ | ⟨t, ts⟩, b⟩ := d
    · rfl
    · exact List.dropWhile_cons_of_neg (by simpa [Cursor.peek] using h')
  | succ n ih =>
    have hpeek : d.peek.kind = .newline := h d.peek.terminal List.mem_cons_self
    obtain ⟨_ | ⟨t, ts⟩, b⟩ := d
    · have hb : Terminal.endOfText.kind = .newline := (Token.kind_eq hd).symm.trans hpeek
      cases hb
    · have ht : (t.kind == .newline) = true := beq_iff_eq.2 hpeek
      have ih := @ih ⟨ts, b⟩ hd (fun u hu => h u (List.mem_cons_of_mem _ hu)) (by rwa [skip_succ] at h')
      simpa [List.dropWhile_cons, ht] using ih

theorem skipNewlines_eq {n : Nat} (hd : d.Closed) (h : ∀ t ∈ d.ahead n, t.kind = .newline)
    (h' : (d.skip n).peek.kind ≠ .newline) : skipNewlines d = .ok () (d.skip n) :=
  congrArg (fun ts => EStateM.Result.ok () (Cursor.mk ts d.beyond)) (dropWhile_newlines hd h h')

theorem exists_skipNewlines (hc : c.Closed) :
    ∃ n, (∀ t ∈ c.ahead n, t.kind = .newline) ∧ (c.skip n).peek.kind ≠ .newline := by
  obtain ⟨ts, b⟩ := c
  induction ts with
  | nil =>
    refine ⟨0, nofun, ?_⟩
    show b.terminal.kind ≠ .newline
    rw [show b.terminal = Terminal.endOfText from hc]
    decide
  | cons t ts ih =>
    by_cases ht : t.kind = .newline
    · obtain ⟨n, h1, h2⟩ := ih hc
      refine ⟨n + 1, ?_, by rwa [skip_succ]⟩
      intro u hu
      rcases List.mem_cons.1 hu with rfl | hu
      · exact ht
      · exact h1 u hu
    · exact ⟨0, nofun, ht⟩

theorem predictive_skipNewlines : Predictive skipNewlines H fun _ k => k ≠ .newline ∧ H k := by
  constructor
  · intro c hc
    obtain ⟨n, h1, h2⟩ := exists_skipNewlines hc
    refine .success n () (fun _ _ h => h.2) ?_
    intro d hd e hu
    rw [length_ahead] at e hu ⊢
    refine skipNewlines_eq hd (by rwa [e]) ?_
    rcases hu with hu | hu
    · rwa [Token.kind_eq hu]
    · exact hu.1
  · refine ⟨[], (), fun _ h => h.2, passes_nil.2 fun d hd hu => ?_⟩
    exact skipNewlines_eq (n := 0) hd nofun hu.1

theorem Predictive.skipNewlines (hp : Predictive p (fun k => k ≠ .newline ∧ H k) F) :
    Predictive (skipNewlines >>= fun _ => p) H F :=
  predictive_skipNewlines.bind fun _ => hp

/-! ## Repetition -/

/-- What `many` asks of a step. -/
structure Steps (step : Production (Option α)) (H : TokenKind → Prop) (F : Option α → TokenKind → Prop) :
    Prop where
  run : ∀ c : Cursor, c.Closed → PredictiveAt step H F c
  closes : ∃ ts, Leads H ts (F none) ∧ Passes step ts none fun u => F none u.kind
  /-- Behind a value a kind may stand that begins no step, and so the step took a token. -/
  again : ∀ a, (∀ k, H k → F (some a) k) ∧ ∃ k, F (some a) k ∧ ¬ H k
  ends : ∀ position a c, step ⟨[], .endAt position⟩ ≠ .ok (some a) c

section
variable {step : Production (Option α)} {F : Option α → TokenKind → Prop}

theorem Steps.progress (h : Steps step H F) (hc : c.Closed) {a : α} {c' : Cursor}
    (e : step c = .ok (some a) c') : c'.Closed ∧ c'.rest.length < c.rest.length := by
  obtain ⟨n, rfl, -⟩ := (h.run c hc).of_ok hc e
  obtain ⟨k, hF, hH⟩ := (h.again a).2
  exact ⟨hc.skip n, (h.run c hc).progress hc e hF hH fun position => h.ends position a _⟩

theorem Steps.manyAtMost_eq (h : Steps step H F) {m n : Nat} (hc : c.Closed) (hm : c.rest.length < m)
    (hn : c.rest.length < n) : manyAtMost step m c = manyAtMost step n c := by
  induction m generalizing n c with
  | zero => omega
  | succ m ih =>
    cases n with
    | zero => omega
    | succ n =>
      rw [manyAtMost_succ, manyAtMost_succ]
      cases hs : step c with
      | error x c' => rw [bind_error hs, bind_error hs]
      | ok o c' =>
        rw [bind_ok hs, bind_ok hs]
        cases o with
        | none => rfl
        | some a =>
          obtain ⟨hc', hlt⟩ := h.progress hc hs
          have := ih hc' (by omega) (show c'.rest.length < n by omega)
          simp only [bind, EStateM.bind, this]

theorem Steps.many_eq (h : Steps step H F) (hc : c.Closed) :
    many step c = (step >>= fun
      | none => Pure.pure []
      | some a => many step >>= fun as => Pure.pure (a :: as)) c := by
  show manyAtMost step (c.rest.length + 1) c = _
  rw [manyAtMost_succ]
  cases hs : step c with
  | error x c' => rw [bind_error hs, bind_error hs]
  | ok o c' =>
    rw [bind_ok hs, bind_ok hs]
    cases o with
    | none => rfl
    | some a =>
      obtain ⟨hc', hlt⟩ := h.progress hc hs
      have : manyAtMost step c.rest.length c' = many step c' :=
        h.manyAtMost_eq hc' hlt (Nat.lt_succ_self _)
      simp only [bind, EStateM.bind, this]

theorem Steps.many (h : Steps step H F) : Predictive (many step) H fun _ => F none := by
  have hopen : Opens (Production.many step) H fun _ => F none := by
    obtain ⟨ts, hl, hpass⟩ := h.closes
    refine ⟨ts, [], hl, fun d hd e hu => ?_⟩
    rw [h.many_eq hd, bind_ok (hpass d hd e hu)]
    rfl
  refine ⟨fun c hc => ?_, hopen⟩
  induction hlen : c.rest.length using Nat.strongRecOn generalizing c with
  | _ len ih =>
    subst hlen
    refine .congr (V := H) ?_ (fun _ h => h) fun d hd _ => h.many_eq hd
    refine (h.run c hc).bind hc ?_ ?_
    · intro o n e
      cases o with
      | none => exact .pure fun _ h => h
      | some a =>
        obtain ⟨hc', hlt⟩ := h.progress hc e
        refine .bind hc' ((ih _ hlt _ hc' rfl).mono (h.again a).1 fun _ _ h => h) ?_ ?_
        · exact fun as _ _ => .pure fun _ h => h
        · exact fun as => .pure fun _ h => h
    · intro o
      cases o with
      | none => exact .pure fun _ h => h
      | some a =>
        exact (hopen.mono (h.again a).1 fun _ _ h => h).bind fun _ => .pure fun _ h => h

end

/-- What may stand behind an item of a list, or behind none. -/
def afterCommaKinds (F : TokenKind → Prop) : Option α → TokenKind → Prop
  | none => fun k => k ≠ .comma ∧ F k
  | some _ => F

theorem steps_afterComma {F : TokenKind → Prop} (hp : Predictive p H fun _ => F) (hF : F .comma) :
    Steps (afterComma p) (fun k => k ≠ .comma ∧ F k) (afterCommaKinds F) := by
  have h : Predictive (afterComma p) (fun k => k ≠ .comma ∧ F k) (afterCommaKinds F) :=
    .ifAccept (hp.any.bind fun _ => .pure fun _ h => h) (.pure fun _ h => ⟨h.1, h⟩)
  refine ⟨h.run, ⟨[], fun _ h => h, passes_nil.2 fun d _ hu => ?_⟩, ?_, nofun⟩
  · exact bind_ok ((accept_eq .comma d).trans (if_neg hu.1))
  · exact fun _ => ⟨fun _ h => h.2, .comma, hF, fun h => h.1 rfl⟩

theorem Predictive.commaList {F : TokenKind → Prop} (hp : Predictive p H fun _ => F) (hF : F .comma) :
    Predictive (commaList p) H fun _ k => k ≠ .comma ∧ F k :=
  hp.bind fun _ => ((steps_afterComma hp hF).many.widen fun _ h => h.2).map fun _ _ h => h

/-! ## Bodies in braces -/

theorem Passes.skipNewlines {a : α} {t : Terminal} {ts : List Terminal} {P : Terminal → Prop}
    (h : Passes p (t :: ts) a P) (ht : t.kind ≠ .newline) :
    Passes (skipNewlines >>= fun _ => p) (t :: ts) a P := by
  have hskip : Passes Production.skipNewlines [] () fun u => u.kind ≠ .newline :=
    passes_nil.2 fun d hd hu => skipNewlines_eq (n := 0) hd nofun hu
  exact hskip.bind h nofun fun u hu => by cases hu; exact ht

/-- What may stand behind an item of a body, or behind its closing brace. -/
def bodyKinds (F : TokenKind → Prop) : Option α → TokenKind → Prop
  | none => Any
  | some _ => F

/-- A production that reads one item of a body, or its closing brace, is a step behind line breaks. -/
theorem steps_body {p : Production (Option α)} {F : TokenKind → Prop} {cause : SyntaxError.Cause}
    (hp : Predictive p (· = .closeBrace) (bodyKinds F)) (hnone : Takes p ⟨.closeBrace, ""⟩ (pure none))
    (hend : Refuses p .endOfText cause) (hF : F .closeBrace) (hF' : F .closeBracket) :
    Steps (skipNewlines >>= fun _ => p) (· = .closeBrace) (bodyKinds F) := by
  have h : Predictive (skipNewlines >>= fun _ => p) (· = .closeBrace) (bodyKinds F) :=
    .skipNewlines (hp.widen fun k hk => ⟨by rw [hk]; nofun, hk⟩)
  refine ⟨h.run, ⟨[⟨.closeBrace, ""⟩], rfl, hnone.passes.skipNewlines nofun⟩, ?_, ?_⟩
  · exact fun _ => ⟨fun k hk => by rw [hk]; exact hF, .closeBracket, hF', nofun⟩
  · intro position a c e
    obtain ⟨c', e'⟩ := hend ⟨[], .endAt position⟩ rfl
    rw [bind_ok (show skipNewlines ⟨[], .endAt position⟩ = .ok () ⟨[], .endAt position⟩ from rfl), e'] at e
    cases e

/-- An opening brace behind line breaks. -/
theorem Predictive.openBrace (hp : Predictive p Any F) (hH : H .openBrace) :
    Predictive (Production.skipNewlines >>= fun _ => Production.expect .openBrace >>= fun _ => p) H F :=
  .skipNewlines (.expect hp ⟨nofun, hH⟩)

end Production

end Erd
