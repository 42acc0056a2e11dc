import Erd.Proofs.Grammar.Yielding

/-!
# Predictive productions

A cursor gives an endless stream of tokens, since past its last token it repeats the end.  A production is
predictive if it decides by the tokens that it takes and the one behind them: with the same terminals ahead
it does the same, whatever comes later.  When it fails, the tokens before the one that it fails at can still
be read on to a value.

    Passes p ts a F      over the terminals `ts`, in front of one of `F`, the production reads `a`
    Opens p H F          the production reads some terminals that begin with a kind of `H`
    Predictive p H F     it is predictive, and it reads on if a kind of `F a` stands behind what it read

    Predictive p H F → (∀ a, Predictive (f a) (F a) G) → Predictive (p >>= f) H G       (Predictive.bind)
    p takes each terminal of T to go on predictively → p refuses every other →
      T t → H t.kind → Predictive p H F                                                 (Predictive.take)
-/

namespace Erd

/-! ## Streams -/

namespace Cursor

/-- The cursor so many tokens further on. -/
def skip (c : Cursor) (n : Nat) : Cursor := ⟨c.rest.drop n, c.beyond⟩

/-- The next so many terminals. -/
def ahead : Nat → Cursor → List Terminal
  | 0, _ => []
  | n + 1, c => c.peek.terminal :: ahead n c.advance

/-- Past its tokens the cursor reads the end of a text. -/
def Closed (c : Cursor) : Prop := c.beyond.terminal = .endOfText

variable {c d : Cursor} {m n : Nat}

theorem closed_ofTokens (ts : List Token) : (ofTokens ts).Closed := rfl

theorem Closed.skip (h : c.Closed) (n : Nat) : (c.skip n).Closed := h

@[simp]
theorem skip_zero (c : Cursor) : c.skip 0 = c := rfl

theorem skip_one (c : Cursor) : c.skip 1 = c.advance := by
  rw [skip, List.drop_one]
  rfl

@[simp]
theorem skip_skip (c : Cursor) (m n : Nat) : (c.skip m).skip n = c.skip (m + n) := by
  simp [skip]

theorem skip_succ (c : Cursor) (n : Nat) : c.skip (n + 1) = c.advance.skip n := by
  rw [← skip_one, skip_skip, Nat.add_comm]

theorem skip_two (c : Cursor) : c.skip 2 = c.advance.advance := by
  rw [← skip_one, ← skip_one, skip_skip]

theorem second_eq (c : Cursor) : c.second = (c.skip 1).peek := by
  rw [skip_one]
  rfl

@[simp]
theorem length_ahead (n : Nat) (c : Cursor) : (c.ahead n).length = n := by
  induction n generalizing c with
  | zero => rfl
  | succ n ih => rw [ahead, List.length_cons, ih]

theorem ahead_add (m n : Nat) (c : Cursor) : c.ahead (m + n) = c.ahead m ++ (c.skip m).ahead n := by
  induction m generalizing c with
  | zero => rw [Nat.zero_add]; rfl
  | succ m ih => rw [Nat.succ_add, ahead, ih, ahead, List.cons_append, skip_succ]

/-- Terminals that agree, agree in both parts. -/
theorem ahead_add_eq {ts us : List Terminal} (h : d.ahead (ts.length + us.length) = ts ++ us) :
    d.ahead ts.length = ts ∧ (d.skip ts.length).ahead us.length = us := by
  rw [ahead_add] at h
  exact List.append_inj h (length_ahead _ _)

theorem ahead_agree (h : d.ahead (m + n) = c.ahead (m + n)) :
    d.ahead m = c.ahead m ∧ (d.skip m).ahead n = (c.skip m).ahead n := by
  rw [ahead_add, ahead_add] at h
  exact List.append_inj h (by simp)

theorem ahead_agree_le (hmn : m ≤ n) (h : d.ahead n = c.ahead n) : d.ahead m = c.ahead m := by
  obtain ⟨k, rfl⟩ := Nat.exists_eq_add_of_le hmn
  exact (ahead_agree h).1

theorem ahead_one_eq : d.ahead 1 = c.ahead 1 ↔ d.peek.terminal = c.peek.terminal := by
  simp [ahead]

/-- The terminal behind those that agree. -/
theorem peek_agree (h : d.ahead (n + 1) = c.ahead (n + 1)) :
    (d.skip n).peek.terminal = (c.skip n).peek.terminal :=
  ahead_one_eq.1 (ahead_agree h).2

theorem second_agree (h : d.ahead 2 = c.ahead 2) :
    d.peek.terminal = c.peek.terminal ∧ d.second.terminal = c.second.terminal := by
  refine ⟨ahead_one_eq.1 (ahead_agree_le (by omega) h), ?_⟩
  rw [second_eq, second_eq]
  exact peek_agree h

theorem peek_skip (c : Cursor) (n : Nat) : (c.skip n).peek = c.rest.getD n c.beyond := by
  simp [skip, peek, List.headD_eq_head?_getD, List.head?_drop]

theorem ahead_eq_take {c : Cursor} {n : Nat} (h : n ≤ c.rest.length) :
    c.ahead n = (c.rest.take n).map Token.terminal := by
  induction n generalizing c with
  | zero => rfl
  | succ n ih =>
    obtain ⟨_ | ⟨t, ts⟩, b⟩ := c
    · simp at h
    · rw [ahead, ih (by simpa [advance] using h)]
      rfl

theorem ahead_terminals {c : Cursor} {us : List Terminal} (h : c.terminals = us) :
    c.ahead us.length = us ∧ (c.skip us.length).peek = c.beyond := by
  have hlen : us.length = c.rest.length := by rw [← h, terminals, List.length_map]
  rw [hlen, ahead_eq_take (Nat.le_refl _), List.take_length, peek_skip]
  exact ⟨h, by simp⟩

end Cursor

namespace Production

open Cursor

variable {α β : Type}

/-! ## Definitions -/

/-- The production reads these terminals to `a`, in front of a terminal of `F`. -/
def Passes (p : Production α) (ts : List Terminal) (a : α) (F : Terminal → Prop) : Prop :=
  ∀ d : Cursor, d.Closed → d.ahead ts.length = ts → F (d.skip ts.length).peek.terminal →
    p d = .ok a (d.skip ts.length)

/-- The production reads some terminals that, with what may stand behind them, begin with a kind of `H`. -/
def Opens (p : Production α) (H : TokenKind → Prop) (F : α → TokenKind → Prop) : Prop :=
  ∃ ts a, Leads H ts (F a) ∧ Passes p ts a fun u => F a u.kind

/-- The production is predictive at a cursor.  A value is read from its terminals and the one behind them,
which may be any of `F`.  An error is about the token behind the terminals that are read, and shows in
that token and the next; the terminals before it can be read to a value. -/
inductive PredictiveAt (p : Production α) (H : TokenKind → Prop) (F : α → TokenKind → Prop) (c : Cursor) :
    Prop where
  | success (n : Nat) (a : α) (front : n = 0 → ∀ k, F a k → H k)
      (passes : Passes p (c.ahead n) a fun u => u = (c.skip n).peek.terminal ∨ F a u.kind)
  | failure (n : Nat) (cause : SyntaxError.Cause)
      (fails : ∀ d : Cursor, d.Closed → d.ahead (n + 2) = c.ahead (n + 2) →
        ∃ d', p d = .error ⟨cause, (d.skip n).peek⟩ d')
      (viable : 0 < n → ∃ us a, Passes p (c.ahead n ++ us) a fun u => F a u.kind)

/-- The production is predictive everywhere, and reads something. -/
structure Predictive (p : Production α) (H : TokenKind → Prop) (F : α → TokenKind → Prop) : Prop where
  run : ∀ c : Cursor, c.Closed → PredictiveAt p H F c
  opens : Opens p H F

/-- At this terminal the production takes it and goes on as another. -/
def Takes (p : Production α) (t : Terminal) (r : Production α) : Prop :=
  ∀ c : Cursor, c.peek.terminal = t → p c = r c.advance

/-- At this terminal the production fails, for this cause. -/
def Refuses (p : Production α) (t : Terminal) (cause : SyntaxError.Cause) : Prop :=
  ∀ c : Cursor, c.peek.terminal = t → ∃ c', p c = .error ⟨cause, c.peek⟩ c'

variable {p q r : Production α} {f : α → Production β} {H V W : TokenKind → Prop}
  {F F' : α → TokenKind → Prop} {G : β → TokenKind → Prop} {a : α} {b : β} {c d : Cursor}
  {ts us : List Terminal} {t : Terminal} {cause : SyntaxError.Cause}

/-! ## Decisions -/

theorem takes_advance : Takes (advance >>= fun _ => r) t r := fun _ _ => rfl

theorem takes_next {f : Token → Production α} (h : ∀ tok : Token, tok.terminal = t → f tok = r) :
    Takes (next >>= f) t r := by
  intro c hc
  rw [← h c.peek hc]
  rfl

theorem Takes.peek {f : Token → Production α} (h : ∀ tok : Token, tok.terminal = t → Takes (f tok) t r) :
    Takes (peek >>= f) t r :=
  fun c hc => h c.peek hc c hc

theorem refuses_expected (what : Expectation) :
    Refuses (expected what : Production α) t (.expected what) := fun c _ => ⟨c, rfl⟩

theorem Refuses.peek {f : Token → Production α}
    (h : ∀ tok : Token, tok.terminal = t → Refuses (f tok) t cause) : Refuses (peek >>= f) t cause :=
  fun c hc => h c.peek hc c hc

theorem Refuses.bind (h : Refuses p t cause) : Refuses (p >>= f) t cause := by
  intro c hc
  obtain ⟨c', e⟩ := h c hc
  exact ⟨c', bind_error e⟩

/-! ## Passing -/

theorem Passes.run {n : Nat} {P : Terminal → Prop} (h : Passes p (c.ahead n) a P) (hd : d.Closed)
    (e : d.ahead n = c.ahead n) (hP : P (d.skip n).peek.terminal) : p d = .ok a (d.skip n) := by
  have h := h d hd
  rw [length_ahead] at h
  exact h e hP

theorem Passes.mono {P Q : Terminal → Prop} (h : Passes p ts a P) (hPQ : ∀ u, Q u → P u) :
    Passes p ts a Q :=
  fun d hd e hu => h d hd e (hPQ _ hu)

theorem passes_nil {P : Terminal → Prop} :
    Passes p [] a P ↔ ∀ d : Cursor, d.Closed → P d.peek.terminal → p d = .ok a d :=
  ⟨fun h d hd hu => h d hd rfl hu, fun h d hd _ hu => h d hd hu⟩

/-- What stands behind the first terminals is the first of the others, or else what stands behind them. -/
theorem Passes.bind {P Q : Terminal → Prop} (hp : Passes p ts a P) (hf : Passes (f a) us b Q)
    (h0 : us = [] → ∀ u, Q u → P u) (h1 : ∀ u ∈ us.head?, P u) : Passes (p >>= f) (ts ++ us) b Q := by
  intro d hd e hu
  rw [List.length_append] at e hu ⊢
  obtain ⟨e1, e2⟩ := ahead_add_eq e
  rw [← skip_skip] at hu ⊢
  have hP : P (d.skip ts.length).peek.terminal := by
    cases us with
    | nil => exact h0 rfl _ hu
    | cons u us =>
      have hh : (d.skip ts.length).peek.terminal = u := (List.cons.inj e2).1
      rw [hh]
      exact h1 u rfl
  rw [bind_ok (hp d hd e1 hP)]
  exact hf _ (hd.skip _) e2 hu

/-- `Passes.bind` where kinds say what may stand behind the first terminals. -/
theorem Passes.bind_leads {F : TokenKind → Prop} {G : TokenKind → Prop}
    (hp : Passes p ts a fun u => F u.kind) (hl : Leads F us G)
    (hf : Passes (f a) us b fun u => G u.kind) : Passes (p >>= f) (ts ++ us) b fun u => G u.kind := by
  refine hp.bind hf ?_ ?_
  · rintro rfl u hu
    exact hl _ hu
  · intro u hu
    cases us with
    | nil => cases hu
    | cons v us =>
      cases hu
      exact hl

theorem Takes.passes {P : Terminal → Prop} (h : Takes p t (pure a)) : Passes p [t] a P := by
  intro d _ e _
  rw [List.length_singleton, skip_one]
  exact h d (List.cons.inj e).1

theorem Opens.mono (h : Opens p H F) (hH : ∀ k, H k → V k) (hF : ∀ a k, F' a k → F a k) :
    Opens p V F' := by
  obtain ⟨ts, a, hl, hp⟩ := h
  refine ⟨ts, a, ?_, hp.mono fun u => hF a u.kind⟩
  cases ts with
  | nil => exact fun k hk => hH k (hl k (hF a k hk))
  | cons t ts => exact hH _ hl

theorem Opens.pure (h : ∀ k, F a k → H k) : Opens (pure a) H F :=
  ⟨[], a, h, fun _ _ _ _ => rfl⟩

theorem Opens.bind (hp : Opens p H F) (hf : ∀ a, Opens (f a) (F a) G) : Opens (p >>= f) H G := by
  obtain ⟨ts, a, hl, hp⟩ := hp
  obtain ⟨us, b, hl', hf⟩ := hf a
  refine ⟨ts ++ us, b, ?_, hp.bind_leads hl' hf⟩
  cases ts with
  | cons t ts => exact hl
  | nil =>
    cases us with
    | nil => exact fun k hk => hl k (hl' k hk)
    | cons u us => exact hl _ hl'

theorem Opens.take (h : Takes p t r) (ht : H t.kind) (hr : Opens r V F) : Opens p H F := by
  obtain ⟨us, a, -, hpass⟩ := hr
  refine ⟨t :: us, a, ht, fun d hd e hu => ?_⟩
  simp only [List.length_cons, ahead, List.cons.injEq, skip_succ] at e hu ⊢
  rw [h d e.1]
  exact hpass _ hd e.2 hu

theorem Opens.congr (hq : Opens q V F) (hV : ∀ k, V k → H k)
    (h : ∀ d : Cursor, V d.peek.kind → p d = q d) : Opens p H F := by
  obtain ⟨us, a, hl, hpass⟩ := hq
  cases us with
  | nil =>
    refine ⟨[], a, fun k hk => hV k (hl k hk), passes_nil.2 fun d hd hu => ?_⟩
    rw [h d (hl _ hu)]
    exact passes_nil.1 hpass d hd hu
  | cons u us =>
    refine ⟨u :: us, a, hV _ hl, fun d hd e hu => ?_⟩
    have hd' : d.peek.kind = u.kind := Token.kind_eq (List.cons.inj e).1
    rw [h d (by rw [hd']; exact hl)]
    exact hpass d hd e hu

/-! ## Runs -/

namespace PredictiveAt

theorem mono (h : PredictiveAt p H F c) (hH : ∀ k, H k → V k) (hF : ∀ a k, F' a k → F a k) :
    PredictiveAt p V F' c := by
  cases h with
  | success n a front passes =>
    exact .success n a (fun hn k hk => hH k (front hn k (hF a k hk)))
      (passes.mono fun u hu => hu.imp_right (hF a u.kind))
  | failure n cause fails viable =>
    refine .failure n cause fails fun hn => ?_
    obtain ⟨us, a, hp⟩ := viable hn
    exact ⟨us, a, hp.mono fun u => hF a u.kind⟩

/-- A value comes with the number of tokens that were taken. -/
theorem of_ok (h : PredictiveAt p H F c) (hc : c.Closed) {c' : Cursor} (e : p c = .ok a c') :
    ∃ n, c' = c.skip n ∧ (n = 0 → ∀ k, F a k → H k) ∧
      Passes p (c.ahead n) a fun u => u = (c.skip n).peek.terminal ∨ F a u.kind := by
  cases h with
  | success n b front passes =>
    have e' := passes.run hc rfl (Or.inl rfl)
    rw [e] at e'
    cases e'
    exact ⟨n, rfl, front, passes⟩
  | failure n cause fails viable =>
    obtain ⟨c'', e'⟩ := fails c hc rfl
    rw [e] at e'
    cases e'

/-- A value takes a token, if behind it a kind may stand that is not one to begin with. -/
theorem progress (h : PredictiveAt p H F c) (hc : c.Closed) {c' : Cursor} (e : p c = .ok a c') {k : TokenKind}
    (hF : F a k) (hH : ¬ H k) (hend : ∀ position, p ⟨[], .endAt position⟩ ≠ .ok a c') :
    c'.rest.length < c.rest.length := by
  obtain ⟨n, rfl, front, -⟩ := h.of_ok hc e
  have hn : n ≠ 0 := fun hn => hH (front hn k hF)
  have hrest : c.rest ≠ [] := by
    intro hnil
    obtain ⟨ts, ⟨k, v, position⟩⟩ := c
    cases hnil
    cases hc
    exact hend position e
  have := List.length_pos_iff.2 hrest
  simp only [skip, List.length_drop]
  omega

/-- An error comes with the place of its token. -/
theorem of_error (h : PredictiveAt p H F c) (hc : c.Closed) {e : SyntaxError} {c' : Cursor}
    (he : p c = .error e c') :
    ∃ n, e.token = (c.skip n).peek ∧
      (∀ d : Cursor, d.Closed → d.ahead (n + 2) = c.ahead (n + 2) →
        ∃ d', p d = .error ⟨e.cause, (d.skip n).peek⟩ d') ∧
      (0 < n → ∃ us a, Passes p (c.ahead n ++ us) a fun u => F a u.kind) := by
  cases h with
  | success n b front passes =>
    have e' := passes.run hc rfl (Or.inl rfl)
    rw [he] at e'
    cases e'
  | failure n cause fails viable =>
    obtain ⟨c'', e'⟩ := fails c hc rfl
    rw [he] at e'
    cases e'
    exact ⟨n, rfl, fails, viable⟩

/-- A production that does as another wherever the next terminal is the one at hand, or one of a kind
that the other may begin with. -/
theorem congr (h : PredictiveAt q V F c) (hV : ∀ k, V k → H k)
    (hpq : ∀ d : Cursor, d.Closed → d.peek.terminal = c.peek.terminal ∨ V d.peek.kind → p d = q d) :
    PredictiveAt p H F c := by
  -- once a terminal is taken, it is the one at hand
  have hsame : ∀ (us : List Terminal) {n : Nat} {d : Cursor}, d.Closed → 0 < n →
      d.ahead (n + us.length) = c.ahead n ++ us → p d = q d := by
    intro us n d hd hn e
    refine hpq d hd (Or.inl (ahead_one_eq.1 (ahead_agree_le (Nat.succ_le_of_lt hn) ?_)))
    rw [ahead_add] at e
    exact List.append_inj_left e (by simp)
  cases h with
  | success n a front passes =>
    refine .success n a (fun hn k hk => hV k (front hn k hk)) ?_
    intro d hd e hu
    have hpd : p d = q d := by
      rcases Nat.eq_zero_or_pos n with rfl | hn
      · exact hpq d hd (hu.imp_right (front rfl _))
      · exact hsame [] hd hn (by simpa using e)
    rw [hpd]
    exact passes d hd e hu
  | failure n cause fails viable =>
    refine .failure n cause ?_ fun hn => ?_
    · intro d hd e
      rw [hpq d hd (Or.inl (ahead_one_eq.1 (ahead_agree_le (by omega) e)))]
      exact fails d hd e
    · obtain ⟨us, a, hp⟩ := viable hn
      refine ⟨us, a, fun d hd e hu => ?_⟩
      rw [hsame us hd hn (by simpa using e)]
      exact hp d hd e hu

/-- A production that takes the terminals at hand and goes on as another. -/
theorem behind {m : Nat} (hm : 0 < m) (h : PredictiveAt r V F (c.skip m)) (ho : Opens r W F)
    (hpr : ∀ d : Cursor, d.Closed → d.ahead m = c.ahead m → p d = r (d.skip m)) :
    PredictiveAt p H F c := by
  have hbehind : ∀ {us : List Terminal} {a : α} {P : Terminal → Prop}, Passes r us a P →
      Passes p (c.ahead m ++ us) a P := by
    intro us a P hr d hd e hu
    rw [List.length_append] at e hu ⊢
    obtain ⟨e1, e2⟩ := ahead_add_eq e
    rw [← skip_skip] at hu ⊢
    rw [length_ahead] at e1 e2 hu ⊢
    rw [hpr d hd e1]
    exact hr _ (hd.skip m) e2 hu
  cases h with
  | success n a front passes =>
    refine .success (m + n) a (fun hn => absurd hn (by omega)) ?_
    rw [ahead_add, ← skip_skip]
    exact hbehind passes
  | failure n cause fails viable =>
    refine .failure (m + n) cause ?_ fun _ => ?_
    · intro d hd e
      obtain ⟨e1, e2⟩ := ahead_agree (m := m) (n := n + 2) e
      rw [hpr d hd e1, ← skip_skip]
      exact fails _ (hd.skip m) e2
    · rcases Nat.eq_zero_or_pos n with rfl | hn
      · obtain ⟨us, a, -, hr⟩ := ho
        exact ⟨us, a, hbehind hr⟩
      · obtain ⟨us, a, hr⟩ := viable hn
        refine ⟨us, a, ?_⟩
        rw [ahead_add, List.append_assoc]
        exact hbehind hr

/-- A production that fails at the next token, which shows in that token and the one behind it. -/
theorem stop (cause : SyntaxError.Cause)
    (h : ∀ d : Cursor, d.Closed → d.ahead 2 = c.ahead 2 → ∃ d', p d = .error ⟨cause, d.peek⟩ d') :
    PredictiveAt p H F c :=
  .failure 0 cause h fun hn => absurd hn (by omega)

theorem take (h : Takes p c.peek.terminal r) (hc : c.Closed)
    (hr : ∀ d : Cursor, d.Closed → PredictiveAt r V F d) (ho : Opens r W F) : PredictiveAt p H F c := by
  refine .behind Nat.one_pos (hr _ (hc.skip 1)) ho fun d _ e => ?_
  rw [h d (ahead_one_eq.1 e), skip_one]

theorem refuse (h : Refuses p c.peek.terminal cause) : PredictiveAt p H F c :=
  .stop cause fun d _ e => h d (ahead_one_eq.1 (ahead_agree_le (by omega) e))

theorem pure (h : ∀ k, F a k → H k) : PredictiveAt (pure a) H F c :=
  .success 0 a (fun _ => h) fun _ _ _ _ => rfl

theorem bind (hc : c.Closed) (hp : PredictiveAt p H F c)
    (hf : ∀ a n, p c = .ok a (c.skip n) → PredictiveAt (f a) (F a) G (c.skip n))
    (ho : ∀ a, Opens (f a) (F a) G) : PredictiveAt (p >>= f) H G c := by
  cases hp with
  | failure n cause fails viable =>
    refine .failure n cause ?_ fun hn => ?_
    · intro d hd e
      obtain ⟨d', e'⟩ := fails d hd e
      exact ⟨d', bind_error e'⟩
    · obtain ⟨us, a, hp⟩ := viable hn
      obtain ⟨vs, b, hl, hf⟩ := ho a
      exact ⟨us ++ vs, b, by rw [← List.append_assoc]; exact hp.bind_leads hl hf⟩
  | success n a front passes =>
    have hok := passes.run hc rfl (Or.inl rfl)
    -- what `f a` takes begins with the terminal at hand behind what `p` takes
    have hhead : ∀ (m : Nat) (us : List Terminal), 0 < m → ∀ u ∈ ((c.skip n).ahead m ++ us).head?,
        u = (c.skip n).peek.terminal := by
      intro m us hm u hu
      obtain ⟨m, rfl⟩ := Nat.exists_eq_add_of_lt hm
      simp only [Nat.zero_add, ahead, List.cons_append, List.head?_cons, Option.mem_def,
        Option.some.injEq] at hu
      exact hu.symm
    cases hf a n hok with
    | success m b front' passes' =>
      refine .success (n + m) b ?_ ?_
      · intro hnm k hk
        exact front (by omega) k (front' (by omega) k hk)
      · rw [ahead_add, ← skip_skip]
        refine passes.bind passes' ?_ ?_
        · intro hm u hu
          have hm : m = 0 := by simpa using congrArg List.length hm
          subst hm
          exact hu.imp id (front' rfl _)
        · intro u hu
          rcases Nat.eq_zero_or_pos m with rfl | hm
          · cases hu
          · exact Or.inl (hhead m [] hm u (by simpa using hu))
    | failure m cause fails viable =>
      refine .failure (n + m) cause ?_ fun hnm => ?_
      · intro d hd e
        have e1 := peek_agree (ahead_agree_le (m := n + 1) (by omega) e)
        obtain ⟨e2, e3⟩ := ahead_agree (m := n) (n := m + 2) e
        obtain ⟨d', e'⟩ := fails _ (hd.skip n) e3
        rw [skip_skip] at e'
        exact ⟨d', by rw [bind_ok (passes.run hd e2 (Or.inl e1)), e']⟩
      · rw [ahead_add]
        rcases Nat.eq_zero_or_pos m with rfl | hm
        · obtain ⟨us, b, hl, hf⟩ := ho a
          refine ⟨us, b, ?_⟩
          rw [show (c.skip n).ahead 0 = [] from rfl, List.append_nil]
          exact (passes.mono fun _ => Or.inr).bind_leads hl hf
        · obtain ⟨us, b, hf⟩ := viable hm
          refine ⟨us, b, ?_⟩
          rw [List.append_assoc]
          refine passes.bind hf ?_ fun u hu => Or.inl (hhead m us hm u hu)
          intro h
          have := congrArg List.length h
          simp at this
          omega

end PredictiveAt

/-! ## Rules -/

namespace Predictive

theorem mono (h : Predictive p H F) (hH : ∀ k, H k → V k) (hF : ∀ a k, F' a k → F a k) :
    Predictive p V F' :=
  ⟨fun c hc => (h.run c hc).mono hH hF, h.opens.mono hH hF⟩

/-- More kinds in front. -/
theorem widen (h : Predictive p H F) (hH : ∀ k, H k → V k) : Predictive p V F :=
  h.mono hH fun _ _ h => h

/-- Fewer kinds behind. -/
theorem narrow (h : Predictive p H F) (hF : ∀ a k, F' a k → F a k) : Predictive p H F' :=
  h.mono (fun _ h => h) hF

/-- Any kind in front. -/
theorem any (h : Predictive p H F) : Predictive p Any F := h.widen fun _ _ => trivial

theorem pure (h : ∀ k, F a k → H k) : Predictive (pure a) H F :=
  ⟨fun _ _ => .pure h, .pure h⟩

theorem bind (hp : Predictive p H F) (hf : ∀ a, Predictive (f a) (F a) G) : Predictive (p >>= f) H G :=
  ⟨fun c hc => .bind hc (hp.run c hc) (fun a n _ => (hf a).run _ (hc.skip n)) fun a => (hf a).opens,
    hp.opens.bind fun a => (hf a).opens⟩

/-- A function of what is read. -/
theorem map {g : α → β} (hp : Predictive p H F) (h : ∀ a k, G (g a) k → F a k) :
    Predictive (p >>= fun a => Pure.pure (g a)) H G :=
  hp.bind fun a => .pure (h a)

/-- A production that takes the next terminal if it is one of `T`, and else fails at it. -/
theorem take (T : Terminal → Prop) (htake : ∀ t, T t → ∃ r, Takes p t r ∧ Predictive r Any F)
    (hrefuse : ∀ t, ¬ T t → ∃ cause, Refuses p t cause) (t : Terminal) (ht : T t) (hH : H t.kind) :
    Predictive p H F := by
  constructor
  · intro c hc
    by_cases hT : T c.peek.terminal
    · obtain ⟨r, hr, hpred⟩ := htake _ hT
      exact .take hr hc hpred.run hpred.opens
    · obtain ⟨cause, h⟩ := hrefuse _ hT
      exact .refuse h
  · obtain ⟨r, hr, hpred⟩ := htake t ht
    exact .take hr hH hpred.opens

/-- A production that takes the next terminal if it is one of `T`, and else does as another, which begins
with no terminal of `T`. -/
theorem choose (T : Terminal → Prop) (htake : ∀ t, T t → ∃ r, Takes p t r ∧ Predictive r Any F)
    (hq : Predictive q V F) (hpq : ∀ c : Cursor, ¬ T c.peek.terminal → p c = q c)
    (hV : ∀ u : Terminal, V u.kind → ¬ T u ∧ H u.kind) : Predictive p H F := by
  have hVH : ∀ k, V k → H k := fun k hk => (hV ⟨k, ""⟩ hk).2
  have hcongr : ∀ d : Cursor, V d.peek.kind → p d = q d := fun d hd => hpq d (hV d.peek.terminal hd).1
  refine ⟨fun c hc => ?_, hq.opens.congr hVH hcongr⟩
  by_cases hT : T c.peek.terminal
  · obtain ⟨r, hr, hpred⟩ := htake _ hT
    exact .take hr hc hpred.run hpred.opens
  · refine (hq.run c hc).congr hVH ?_
    rintro d _ (h | h)
    · exact hpq d (by rwa [h])
    · exact hcongr d h

/-- A production that does as one of two, which begin with different kinds. -/
theorem either {q' : Production α} (T : TokenKind → Prop) (hq : Predictive q V F)
    (hq' : Predictive q' W F) (hT : ∀ c : Cursor, T c.peek.kind → p c = q c)
    (hT' : ∀ c : Cursor, ¬ T c.peek.kind → p c = q' c) (hV : ∀ k, V k → T k ∧ H k)
    (hW : ∀ k, W k → ¬ T k ∧ H k) : Predictive p H F := by
  refine ⟨fun c hc => ?_, hq.opens.congr (fun k hk => (hV k hk).2) fun d hd => hT d (hV _ hd).1⟩
  by_cases hc' : T c.peek.kind
  · refine (hq.run c hc).congr (fun k hk => (hV k hk).2) ?_
    rintro d _ (h | h)
    · exact hT d (by rwa [Token.kind_eq h])
    · exact hT d (hV _ h).1
  · refine (hq'.run c hc).congr (fun k hk => (hW k hk).2) ?_
    rintro d _ (h | h)
    · exact hT' d (by rwa [Token.kind_eq h])
    · exact hT' d (hW _ h).1

/-- A predictive production stops right behind the terminals that it reads. -/
theorem ok_of_reads {G : TokenKind → Prop} {ts rest : List Terminal} {t : Terminal} (h : Predictive p H F)
    (hp : Reads p ts (· = a) G) (hc : c.Closed) (hts : c.terminals = ts ++ t :: rest) (ht : G t.kind) :
    p c = .ok a (c.skip ts.length) := by
  obtain ⟨_, c', e, rfl, hrest⟩ := hp c t rest hts ht
  obtain ⟨n, rfl, -⟩ := (h.run c hc).of_ok hc e
  have hlen := congrArg List.length hts
  have hlen' := congrArg List.length hrest
  simp only [Cursor.terminals, Cursor.skip, List.length_map, List.length_drop, List.length_append,
    List.length_cons] at hlen hlen'
  rw [e, show n = ts.length by omega]

end Predictive

end Production

end Erd
