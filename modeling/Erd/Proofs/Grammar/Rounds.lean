import Erd.Proofs.Grammar.Code
import Erd.Proofs.Grammar.Steps

/-!
# Rounds of loops

The code of a production is steady `k` loops deep if it runs from every cursor to the production's own result,
each token that is taken paying for `k` rounds, and if one more end behind the tokens makes no difference to that
result.

    Steady k code → (∀ a, Steady k (rest a)) → Steady k (.bind code rest)                  (SteadyAt.bind)
    Steps step H F → Steady k round → … → Steady (k + 1) (.many round)                     (Steps.steady)
-/

namespace Erd

/-! ## One more end -/

namespace Cursor

/-- The second cursor reads the tokens of the first, and behind them perhaps one more end. -/
structure Ended (c d : Cursor) : Prop where
  closed : c.Closed
  closed_ended : d.Closed
  rest : d.rest = c.rest ∨ ∃ e : Token, e.kind = .endOfInput ∧ d.rest = c.rest ++ [e]

variable {c d : Cursor}

theorem Reaches.closed (h : c.Reaches d) (hc : c.Closed) : d.Closed := by
  rw [Closed, h.2]
  exact hc

theorem Ended.peek (h : c.Ended d) :
    d.peek = c.peek ∨ (c.peek.kind = .endOfInput ∧ d.peek.kind = .endOfInput) := by
  obtain ⟨ts, b⟩ := c
  obtain ⟨us, b'⟩ := d
  have hb : b.kind = .endOfInput := Token.kind_eq h.closed
  have hb' : b'.kind = .endOfInput := Token.kind_eq h.closed_ended
  cases ts with
  | cons t ts =>
    rcases h.rest with hr | ⟨e, -, hr⟩ <;> cases hr <;> exact Or.inl rfl
  | nil =>
    rcases h.rest with hr | ⟨e, he, hr⟩ <;> cases hr
    · exact Or.inr ⟨hb, hb'⟩
    · exact Or.inr ⟨hb, he⟩

theorem Ended.kind (h : c.Ended d) : d.peek.kind = c.peek.kind := by
  rcases h.peek with h | ⟨h, h'⟩
  · rw [h]
  · rw [h, h']

theorem Ended.advance (h : c.Ended d) : c.advance.Ended d.advance := by
  refine ⟨h.closed, h.closed_ended, ?_⟩
  obtain ⟨ts, b⟩ := c
  obtain ⟨us, b'⟩ := d
  cases ts with
  | cons t ts =>
    rcases h.rest with hr | ⟨e, he, hr⟩ <;> cases hr
    · exact Or.inl rfl
    · exact Or.inr ⟨e, he, rfl⟩
  | nil => rcases h.rest with hr | ⟨e, -, hr⟩ <;> cases hr <;> exact Or.inl rfl

theorem Ended.second (h : c.Ended d) :
    d.second = c.second ∨ (c.second.kind = .endOfInput ∧ d.second.kind = .endOfInput) := h.advance.peek

end Cursor

namespace Production

open Cursor

/-! ## Payment -/

/-- Each token that was taken pays for `k` rounds.  In front of an error `k` rounds more may be left unpaid, and
in front of a value `j`. -/
def Paid {α : Type} (k j : Nat) (c : Cursor) (n : Nat) : Result α → Prop
  | .ok _ c' => n + k * c'.rest.length ≤ k * c.rest.length + j
  | .error _ c' => n + k * c'.rest.length ≤ k * c.rest.length + k

/-- The code comes to the production's result, in rounds that are paid for. -/
def Pays {α : Type} {p : Production α} (k j : Nat) (code : Code p) : Prop :=
  ∀ c : Cursor, c.Closed → ∃ n r, p c = r ∧ code.Runs c n r ∧ Paid k j c n r

/-- The same value, or errors of the same message and value. -/
inductive SameResult {α : Type} : Result α → Result α → Prop where
  | ok {c d : Cursor} (a : α) (h : c.Ended d) : SameResult (.ok a c) (.ok a d)
  | error {e e' : SyntaxError} {c d : Cursor} (message : e'.message = e.message) (value : e'.value? = e.value?) :
      SameResult (.error e c) (.error e' d)

/-- The code pays for its rounds, and in front of a token of `K` one more end makes no difference. -/
structure SteadyAt (K : TokenKind → Prop) (k : Nat) {α : Type} {p : Production α} (code : Code p) : Prop where
  pays : Pays k 0 code
  same : ∀ c d : Cursor, c.Ended d → K c.peek.kind → SameResult (p c) (p d)

/-- A code that is steady in front of every token. -/
abbrev Steady (k : Nat) {α : Type} {p : Production α} (code : Code p) : Prop := SteadyAt (fun _ => True) k code

/-- A value is never read without taking a token. -/
def Consumes {α : Type} (p : Production α) : Prop :=
  ∀ (c c' : Cursor) (a : α), c.Closed → p c = .ok a c' → c'.rest.length < c.rest.length

variable {α β : Type} {p q : Production α} {f : α → Production β} {code : Code p} {other : Code q}
  {rest : ∀ a, Code (f a)} {K H : TokenKind → Prop} {i j k m n : Nat} {a : α} {c c' d : Cursor} {r : Result α}

/-- No rounds are paid for by any tokens. -/
theorem Paid.zero (h : c.Reaches r.stop) : Paid k j c 0 r := by
  have := Nat.mul_le_mul_left k h.length_le
  cases r <;> simp only [Paid, Result.stop] at this ⊢ <;> omega

theorem Paid.le (h : Paid k j c n r) (hj : j ≤ k) : n ≤ k * (c.rest.length + 1) := by
  cases r <;> simp only [Paid, Nat.mul_succ] at h ⊢ <;> omega

/-- More rounds to a token. -/
theorem Paid.mono (h : Paid k j c n r) (hr : c.Reaches r.stop) (hkm : k ≤ m) : Paid m j c n r := by
  obtain ⟨i, rfl⟩ := Nat.exists_eq_add_of_le hkm
  have := Nat.mul_le_mul_left i hr.length_le
  cases r <;> simp only [Paid, Result.stop, Nat.add_mul] at h this ⊢ <;> omega

/-- A token that is taken pays for one round more, and without one the round is left to `j`. -/
theorem Paid.more (h : Paid k 0 c n r) (hr : c.Reaches r.stop)
    (hlt : ∀ a c', r = .ok a c' → c'.rest.length < c.rest.length + j) : Paid (k + 1) j c (n + 1) r := by
  have hle := hr.length_le
  cases r with
  | error e c' =>
    simp only [Paid, Result.stop, Nat.add_mul] at h hle ⊢
    omega
  | ok a c' =>
    have := hlt a c' rfl
    simp only [Paid, Nat.add_mul] at h ⊢
    omega

/-- What the first part saves, the second may leave unpaid. -/
theorem Paid.bind_saved {s : Result β} (h : Paid k 0 c (m + i) (.ok a c')) (h' : Paid k (j + i) c' n s) :
    Paid k j c (m + n) s := by
  cases s <;> simp only [Paid] at h h' ⊢ <;> omega

theorem Paid.bind {s : Result β} (h : Paid k 0 c m (.ok a c')) (h' : Paid k j c' n s) : Paid k j c (m + n) s :=
  Paid.bind_saved (i := 0) h h'

theorem Pays.bind (hp : Pays k 0 code) (hf : ∀ a, Pays k j (rest a)) : Pays k j (.bind code rest) := by
  intro c hc
  obtain ⟨m, r, e, hrun, hpaid⟩ := hp c hc
  cases r with
  | error x c' => exact ⟨m, _, bind_error e, Or.inl ⟨x, c', hrun, rfl⟩, hpaid⟩
  | ok a c' =>
    obtain ⟨n, s, e', hrun', hpaid'⟩ := hf a c' (hrun.reaches.closed hc)
    exact ⟨m + n, s, (bind_ok e).trans e', Or.inr ⟨a, c', m, n, hrun, hrun', rfl⟩, hpaid.bind hpaid'⟩

/-- A function of what is read. -/
theorem Pays.map {g : α → β} (hp : Pays k j code) : Pays k j (.map code : Code (p >>= fun a => Pure.pure (g a))) := by
  intro c hc
  obtain ⟨n, r, e, hrun, hpaid⟩ := hp c hc
  cases r with
  | error x c' => exact ⟨n, _, bind_error e, Or.inl ⟨x, c', hrun, rfl⟩, hpaid⟩
  | ok a c' => exact ⟨n, _, bind_ok e, Or.inr ⟨a, c', n, 0, hrun, ⟨rfl, rfl⟩, rfl⟩, hpaid⟩

theorem Pays.ite {b : Prop} [Decidable b] (hp : b → Pays k j code) (hq : ¬ b → Pays k j other) :
    Pays k j (.ite code other : Code (if b then p else q)) := by
  intro c hc
  by_cases hb : b
  · obtain ⟨n, r, e, hrun, hpaid⟩ := hp hb c hc
    exact ⟨n, r, by rw [if_pos hb, e], Or.inl ⟨hb, hrun⟩, hpaid⟩
  · obtain ⟨n, r, e, hrun, hpaid⟩ := hq hb c hc
    exact ⟨n, r, by rw [if_neg hb, e], Or.inr ⟨hb, hrun⟩, hpaid⟩

theorem Pays.pure (a : α) : Pays k j (.pure a) := fun c _ => ⟨0, _, rfl, ⟨rfl, rfl⟩, .zero (.refl c)⟩

theorem Pays.throw (e : SyntaxError) : Pays k j (.throw e : Code (throw e : Production α)) :=
  fun c _ => ⟨0, _, rfl, ⟨rfl, rfl⟩, .zero (.refl c)⟩

theorem Pays.peek : Pays k j .peek := fun c _ => ⟨0, _, rfl, ⟨rfl, rfl⟩, .zero (.refl c)⟩

theorem Pays.second : Pays k j .second := fun c _ => ⟨0, _, rfl, ⟨rfl, rfl⟩, .zero (.refl c)⟩

theorem Pays.advance : Pays k j .advance := fun c _ => ⟨0, _, rfl, ⟨rfl, rfl⟩, .zero (reaches_advance c)⟩

theorem Pays.next : Pays k 0 .next := Pays.peek.bind fun t => Pays.advance.bind fun _ => .pure t

theorem Pays.reaches (hp : Pays k j code) (hc : c.Closed) : c.Reaches (Result.stop (p c)) := by
  obtain ⟨n, r, rfl, hrun, -⟩ := hp c hc
  exact hrun.reaches

theorem Pays.length_le (hp : Pays k j code) (hc : c.Closed) (e : p c = .ok a c') :
    c'.rest.length ≤ c.rest.length := by
  have h := (hp.reaches hc).length_le
  rwa [e] at h

/-! ## Rules -/

theorem SameResult.bind (h : SameResult (p c) (p d))
    (hf : ∀ a c' d', c'.Ended d' → p c = .ok a c' → SameResult (f a c') (f a d')) :
    SameResult ((p >>= f) c) ((p >>= f) d) := by
  generalize e : p c = r, e' : p d = r' at h
  cases h with
  | ok a h' =>
    rw [bind_ok e, bind_ok e']
    exact hf a _ _ h' e
  | error message value =>
    rw [bind_error e, bind_error e']
    exact .error message value

namespace SteadyAt

theorem weaken {L : TokenKind → Prop} (h : SteadyAt K k code) (hL : ∀ i, L i → K i) : SteadyAt L k code :=
  ⟨h.pays, fun c d hcd hc => h.same c d hcd (hL _ hc)⟩

theorem cast (hs : SteadyAt K k code) (h : p = q) : SteadyAt K k (code.cast h) := by
  subst h
  exact hs

theorem pure (a : α) : SteadyAt K k (.pure a) := ⟨.pure a, fun _ _ h _ => .ok a h⟩

theorem throw (e : SyntaxError) : SteadyAt K k (.throw e : Code (throw e : Production α)) :=
  ⟨.throw e, fun _ _ _ _ => .error rfl rfl⟩

theorem bind (hp : SteadyAt K k code) (hf : ∀ a, Steady k (rest a)) : SteadyAt K k (.bind code rest) :=
  ⟨hp.pays.bind fun a => (hf a).pays, fun c d h hc =>
    (hp.same c d h hc).bind fun a c' d' h' _ => (hf a).same c' d' h' trivial⟩

theorem map {g : α → β} (hp : SteadyAt K k code) :
    SteadyAt K k (.map code : Code (p >>= fun a => Pure.pure (g a))) :=
  hp.bind fun a => .pure (g a)

theorem ite {b : Prop} [Decidable b] (hp : b → SteadyAt K k code) (hq : ¬ b → SteadyAt K k other) :
    SteadyAt K k (.ite code other : Code (if b then p else q)) := by
  refine ⟨.ite (fun hb => (hp hb).pays) fun hb => (hq hb).pays, fun c d h hc => ?_⟩
  split
  · next hb => exact (hp hb).same c d h hc
  · next hb => exact (hq hb).same c d h hc

section

variable {f : Token → Production β} {codes : ∀ t, Code (f t)}

/-- A production that goes on by the next token, and by no more of an end than its kind. -/
theorem peek (hf : ∀ t : Token, SteadyAt (· = t.kind) k (codes t))
    (hends : ∀ t u : Token, t.kind = .endOfInput → u.kind = .endOfInput → f t = f u) :
    SteadyAt K k (.bind .peek codes) := by
  constructor
  · exact Pays.peek.bind fun t => (hf t).pays
  · intro c d h _
    rw [peek_bind, peek_bind]
    have hsame := (hf c.peek).same c d h rfl
    rcases h.peek with e | ⟨e, e'⟩
    · rwa [e]
    · rwa [hends d.peek c.peek e' e]

theorem second (hf : ∀ t : Token, SteadyAt K k (codes t))
    (hends : ∀ t u : Token, t.kind = .endOfInput → u.kind = .endOfInput → f t = f u) :
    SteadyAt K k (.bind .second codes) := by
  constructor
  · exact Pays.second.bind fun t => (hf t).pays
  · intro c d h hK
    rw [second_bind, second_bind]
    have hsame := (hf c.second).same c d h hK
    rcases h.second with e | ⟨e, e'⟩
    · rwa [e]
    · rwa [hends d.second c.second e' e]

end

theorem advance : SteadyAt K k .advance := ⟨.advance, fun _ _ h _ => .ok () h.advance⟩

/-- In front of an end nothing of the end may be told. -/
theorem next (hK : ¬ K .endOfInput) : SteadyAt K k .next := by
  refine ⟨.next, fun c d h hc => ?_⟩
  have e : d.peek = c.peek := h.peek.resolve_right fun e => hK (e.1 ▸ hc)
  show SameResult (.ok c.peek c.advance) (.ok d.peek d.advance)
  rw [e]
  exact .ok _ h.advance

/-- What is known of the token tells that it is no end. -/
theorem next_of {P : TokenKind → Prop} {i : TokenKind} (hi : P i) (hP : ¬ P .endOfInput) : SteadyAt (· = i) k .next :=
  next fun h => hP (h ▸ hi)

theorem expected (what : Expectation) : SteadyAt K k (.expected what : Code (expected what : Production α)) := by
  refine ⟨Pays.peek.bind fun t => (throw (K := K) ⟨.expected what, t⟩).pays, fun c d h _ => ?_⟩
  show SameResult (.error ⟨.expected what, c.peek⟩ c) (.error ⟨.expected what, d.peek⟩ d)
  rcases h.peek with e | ⟨e, e'⟩
  · rw [e]
    exact .error rfl rfl
  · refine .error ?_ ?_
    · simp only [SyntaxError.message, SyntaxError.found, e, e']
    · rw [SyntaxError.value?, SyntaxError.value?, if_pos e, if_pos e']

/-- A production that asks for the kind of the next token. -/
theorem kind {f : TokenKind → Production β} {codes : ∀ t : Token, Code (f t.kind)}
    (hf : ∀ t : Token, SteadyAt (· = t.kind) k (codes t)) :
    SteadyAt K k (.bind .peek codes : Code (Production.peek >>= fun t => f t.kind)) :=
  peek hf fun t u ht hu => by rw [ht, hu]

theorem check (i : TokenKind) : SteadyAt K k (.check i) :=
  kind (f := fun j => Pure.pure (decide (j = i))) fun _ => .pure _

theorem accept (i : TokenKind) : SteadyAt K k (.accept i) :=
  (check i).bind fun _ => .ite (fun _ => advance.map) fun _ => .pure false

theorem acceptWord (w : String) : SteadyAt K k (.acceptWord w) := by
  refine peek (fun t => .ite (fun _ => advance.map) fun _ => .pure false) fun t u ht hu => ?_
  simp [ht, hu, TokenKind.isWord]

/-- The check in front of the token tells that it is no end. -/
theorem expect {i : TokenKind} (hi : i ≠ .endOfInput) : SteadyAt K k (.expect i) := by
  have hchecked : SteadyAt K k (.bind .peek fun t => .ite .next (.expected (.kind i)) :
      Code (Production.peek >>= fun t => if decide (t.kind = i) = true then Production.next
        else Production.expected (.kind i))) := by
    have hend : ¬ decide (TokenKind.endOfInput = i) = true := fun h => hi (of_decide_eq_true h).symm
    exact kind (f := fun j => if decide (j = i) = true then Production.next else Production.expected (.kind i))
      fun t => .ite (fun ht => next_of (P := fun j => decide (j = i) = true) ht hend) fun _ => expected _
  refine ⟨(check (K := K) i).pays.bind fun _ => .ite (fun _ => .next) fun _ => ?_, hchecked.same⟩
  exact (expected (K := K) _).pays

theorem word (what : Expectation) : SteadyAt K k (.word what) :=
  kind (f := fun j => if j.isWord = true then Production.next >>= fun t => Pure.pure t.value
    else Production.expected what) fun _ =>
      .ite (fun ht => map (next_of (P := (·.isWord = true)) ht nofun)) fun _ => expected _

theorem string : SteadyAt K k .string := map (expect (i := .string) nofun)

end SteadyAt

/-! ## Loops -/

theorem skipNewlines_advance (hc : c.Closed) (h : c.peek.kind = .newline) :
    skipNewlines c = skipNewlines c.advance ∧ c.advance.rest.length < c.rest.length := by
  obtain ⟨_ | ⟨t, ts⟩, b⟩ := c
  · cases (Token.kind_eq hc).symm.trans h
  · have ht : (t.kind == .newline) = true := beq_iff_eq.2 h
    have hdrop : (t :: ts).dropWhile (·.kind == .newline) = ts.dropWhile (·.kind == .newline) := by
      rw [List.dropWhile_cons, if_pos ht]
    exact ⟨congrArg (fun us => EStateM.Result.ok () (Cursor.mk us b)) hdrop, Nat.lt_succ_self _⟩

theorem skipNewlines_stays (hc : c.Closed) (h : c.peek.kind ≠ .newline) : skipNewlines c = .ok () c :=
  skipNewlines_eq (n := 0) hc nofun h

/-- A round for each line break, which pays for it. -/
theorem pays_skipNewlines : Pays (k + 1) 0 .skipNewlines := by
  intro c hc
  suffices h : ∃ n d, skipNewlines c = .ok () d ∧ Newlines c n d ∧ n + d.rest.length ≤ c.rest.length by
    obtain ⟨n, d, e, hd, hle⟩ := h
    have := Nat.mul_le_mul_left k (Nat.le_of_add_left_le hle)
    refine ⟨n, _, e, ⟨d, hd, rfl⟩, ?_⟩
    simp only [Paid, Nat.add_mul]
    omega
  induction hlen : c.rest.length using Nat.strongRecOn generalizing c with
  | _ len ih =>
    subst hlen
    by_cases h : c.peek.kind = .newline
    · obtain ⟨e, hlt⟩ := skipNewlines_advance hc h
      obtain ⟨n, d, e', hd, hle⟩ := ih _ hlt c.advance hc rfl
      exact ⟨n + 1, d, e.trans e', .newline h hd, by omega⟩
    · exact ⟨0, c, skipNewlines_stays hc h, .stop h, by omega⟩

theorem SteadyAt.skipNewlines : SteadyAt K (k + 1) .skipNewlines := by
  refine ⟨pays_skipNewlines, fun c d hcd hc => ?_⟩
  clear hc
  induction hlen : c.rest.length using Nat.strongRecOn generalizing c d with
  | _ len ih =>
    subst hlen
    by_cases h : c.peek.kind = .newline
    · obtain ⟨e, hlt⟩ := skipNewlines_advance hcd.closed h
      rw [e, (skipNewlines_advance hcd.closed_ended (hcd.kind.trans h)).1]
      exact ih _ hlt c.advance d.advance hcd.advance rfl
    · rw [skipNewlines_stays hcd.closed h, skipNewlines_stays hcd.closed_ended (by rwa [hcd.kind])]
      exact .ok () hcd

section

variable {step : Production (Option α)} {round : Code step} {F : Option α → TokenKind → Prop}

theorem many_cons (a : α) (c : Cursor) :
    (Production.many step >>= fun as => Pure.pure (a :: as)) c = Result.cons a (Production.many step c) := by
  cases e : Production.many step c with
  | ok as c' => exact bind_ok e
  | error x c' => exact bind_error e

/-- Each round of a loop takes a token, but for the last one, which has to take one if `j` is zero. -/
theorem Steps.pays (hs : Steps step H F) (h : Pays k 0 round)
    (hnone : ∀ c c' : Cursor, c.Closed → step c = .ok none c' → c'.rest.length < c.rest.length + j) :
    Pays (k + 1) j (.many round) := by
  intro c hc
  show ∃ n r, _ = r ∧ Loop round.Runs c n r ∧ _
  induction hlen : c.rest.length using Nat.strongRecOn generalizing c with
  | _ len ih =>
    subst hlen
    obtain ⟨m, r, e, hrun, hpaid⟩ := h c hc
    have hmany := hs.many_eq hc
    have hreaches := hrun.reaches
    cases r with
    | error x c' =>
      rw [bind_error e] at hmany
      exact ⟨m + 1, _, hmany, .error hrun, Paid.more (r := .error x c') hpaid hreaches nofun⟩
    | ok o c' =>
      rw [bind_ok e] at hmany
      cases o with
      | none =>
        exact ⟨m + 1, _, hmany, .last hrun, hpaid.more hreaches fun _ _ h => by cases h; exact hnone c c' hc e⟩
      | some a =>
        obtain ⟨hc', hlt⟩ := hs.progress hc e
        have hmore : Paid (k + 1) 0 c (m + 1) (.ok (some a) c') :=
          hpaid.more hreaches fun _ _ h => by cases h; exact hlt
        obtain ⟨n, s, e', hrun', hpaid'⟩ := ih _ hlt c' hc' rfl
        refine ⟨m + 1 + n, _, hmany.trans ((many_cons a c').trans (congrArg (Result.cons a) e')),
          .again hrun hrun', hmore.bind ?_⟩
        cases s <;> exact hpaid'

theorem Steps.sameResult (hs : Steps step H F) (h : Steady k round) (hcd : c.Ended d) :
    SameResult (Production.many step c) (Production.many step d) := by
  induction hlen : c.rest.length using Nat.strongRecOn generalizing c d with
  | _ len ih =>
    subst hlen
    rw [hs.many_eq hcd.closed, hs.many_eq hcd.closed_ended]
    refine (h.same c d hcd trivial).bind fun o c' d' hcd' e => ?_
    cases o with
    | none => exact .ok [] hcd'
    | some a =>
      have hmany := ih _ (hs.progress hcd.closed e).2 hcd' rfl
      exact hmany.bind fun as c'' d'' hcd'' _ => .ok (a :: as) hcd''

/-- A loop of a steady step, whose last round takes a token. -/
theorem Steps.steady (hs : Steps step H F) (h : Steady k round)
    (hnone : ∀ c c' : Cursor, c.Closed → step c = .ok none c' → c'.rest.length < c.rest.length) :
    SteadyAt K (k + 1) (.many round) :=
  ⟨hs.pays h.pays hnone, fun _ _ hcd _ => hs.sameResult h hcd⟩

end

/-- A loop over commas.  Its last round takes no token, but the first item did. -/
theorem SteadyAt.commaList {F : Option α → TokenKind → Prop} (hs : Steps (afterComma p) H F) (h : Steady k code)
    (hp : Consumes p) : SteadyAt K (k + 1) (.commaList code) := by
  have hstep : Steady k (.afterComma code) := (accept .comma).bind fun _ => .ite (fun _ => h.map) fun _ => .pure none
  have hmany : Pays (k + 1) 1 (.many (.afterComma code)) :=
    hs.pays hstep.pays fun c c' hc e => Nat.lt_succ_of_le (hstep.pays.length_le hc e)
  constructor
  · intro c hc
    obtain ⟨m, r, e, hrun, hpaid⟩ := h.pays c hc
    have hreaches := hrun.reaches
    cases r with
    | error x c' =>
      exact ⟨m, _, bind_error e, Or.inl ⟨x, c', hrun, rfl⟩,
        Paid.mono (r := .error x c') hpaid hreaches (Nat.le_succ k)⟩
    | ok a c' =>
      -- the first item took a token, which pays for the last round of the loop
      have hmore : Paid (k + 1) 0 c (m + 1) (.ok a c') :=
        hpaid.more hreaches fun _ _ h => by cases h; exact hp c c' a hc e
      obtain ⟨n, s, e', hrun', hpaid'⟩ := hmany.map (g := (a :: ·)) c' (hreaches.closed hc)
      exact ⟨m + n, s, (bind_ok e).trans e', Or.inr ⟨a, c', m, n, hrun, hrun', rfl⟩,
        hmore.bind_saved (i := 1) (j := 0) hpaid'⟩
  · intro c d hcd _
    refine (h.same c d hcd trivial).bind fun a c' d' hcd' _ => ?_
    exact (hs.sameResult hstep hcd').bind fun as c'' d'' hcd'' _ => .ok (a :: as) hcd''

end Production

end Erd
