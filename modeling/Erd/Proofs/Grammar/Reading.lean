import Erd.Grammar.Production
import Erd.Proofs.Token.Terminal

/-!
# What productions read

`Reads p ts Q F` says that `p`, with the terminals `ts` ahead of it, succeeds with a value of `Q` and
stops behind them; it may look at the one terminal behind `ts`, whose kind is one of `F`.  `Fails p ts`
says that it fails whatever stands behind `ts`.

    Reads p ts Q F → (∀ a, Q a → Reads (f a) us R G) → Leads F us G →
      Reads (p >>= f) (ts ++ us) R G                                        (Reads.bind)
    (∀ x ∈ xs, Reads step (ts x) (· = some (v x)) F) → Reads step us (· = none) G → … →
      Reads (many step) (xs.flatMap ts ++ us) (· = xs.map v) G              (Reads.many)
-/

namespace Erd

/-! ## Definitions -/

namespace Cursor

def terminals (c : Cursor) : List Terminal := c.rest.map Token.terminal

end Cursor

namespace Production

variable {α β : Type}

/-- The production reads these terminals to a value of `Q`, whatever kind of `F` stands behind them. -/
def Reads (p : Production α) (ts : List Terminal) (Q : α → Prop) (F : TokenKind → Prop) : Prop :=
  ∀ c t rest, c.terminals = ts ++ t :: rest → F t.kind →
    ∃ a c', p c = .ok a c' ∧ Q a ∧ c'.terminals = t :: rest

/-- The production fails on these terminals, whatever stands behind them. -/
def Fails (p : Production α) (ts : List Terminal) : Prop :=
  ∀ c rest, c.terminals = ts ++ rest → ∃ e c', p c = .error e c'

/-- Any kind. -/
def Any : TokenKind → Prop := fun _ => True

/-- The terminals, with a kind of `G` behind them, begin with a kind of `F`. -/
def Leads (F : TokenKind → Prop) (us : List Terminal) (G : TokenKind → Prop) : Prop :=
  match us with
  | [] => ∀ k, G k → F k
  | u :: _ => F u.kind

variable {p : Production α} {f : α → Production β} {ts us : List Terminal} {t u : Terminal}
  {Q : α → Prop} {R : β → Prop} {F G : TokenKind → Prop}

/-! ## Leading terminals -/

theorem leads_any : Leads Any us G := by
  cases us with
  | nil => exact fun _ _ => trivial
  | cons u us => trivial

theorem leads_nil (h : ∀ k, G k → F k) : Leads F [] G := h

theorem leads_cons (h : F u.kind) : Leads F (u :: us) G := h

theorem leads_append {vs : List Terminal} (h : Leads F us F) (h' : Leads F vs G) :
    Leads F (us ++ vs) G := by
  cases us with
  | nil => exact h'
  | cons u us => exact h

theorem leads_flatMap {ι : Type} {xs : List ι} {g : ι → List Terminal}
    (h : ∀ x ∈ xs, Leads F (g x) F) (h' : Leads F us G) : Leads F (xs.flatMap g ++ us) G := by
  induction xs with
  | nil => exact h'
  | cons x xs ih =>
    rw [List.flatMap_cons, List.append_assoc]
    exact leads_append (h x List.mem_cons_self) (ih fun y hy => h y (List.mem_cons_of_mem _ hy))

/-! ## Sequences -/

theorem Reads.mono (h : Reads p ts Q F) {Q' : α → Prop} (hQ : ∀ a, Q a → Q' a)
    (hF : ∀ k, G k → F k) : Reads p ts Q' G := by
  intro c t rest hc ht
  obtain ⟨a, c', e, ha, h'⟩ := h c t rest hc (hF _ ht)
  exact ⟨a, c', e, hQ a ha, h'⟩

/-- A reading in front of fewer terminals. -/
theorem Reads.narrow (h : Reads p ts Q F) (hF : ∀ k, G k → F k) : Reads p ts Q G :=
  h.mono (fun _ h => h) hF

/-- A reading that does not look at what follows. -/
theorem Reads.ofAny (h : Reads p ts Q Any) : Reads p ts Q F := h.narrow fun _ _ => trivial

theorem Reads.pure {a : α} (h : Q a) : Reads (pure a) [] Q F :=
  fun c _ _ hc _ => ⟨a, c, rfl, h, hc⟩

/-- The cursor behind the first part of a sequence, and the run of the second part from there. -/
theorem bind_ok {c c' : Cursor} {a : α} (h : p c = .ok a c') : (p >>= f) c = f a c' := by
  show EStateM.bind p f c = f a c'
  simp only [EStateM.bind, h]

theorem bind_error {c c' : Cursor} {e : SyntaxError} (h : p c = .error e c') :
    (p >>= f) c = .error e c' := by
  show EStateM.bind p f c = .error e c'
  simp only [EStateM.bind, h]

/-- A sequence goes by the run of its first part. -/
theorem bind_congr_at {q : Production α} {c d : Cursor} (h : p c = q d) : (p >>= f) c = (q >>= f) d := by
  show EStateM.bind p f c = EStateM.bind q f d
  simp only [EStateM.bind, h]

/-- A sequence that succeeds is two parts that succeed. -/
theorem bind_eq_ok {c c'' : Cursor} {b : β} (h : (p >>= f) c = .ok b c'') :
    ∃ a c', p c = .ok a c' ∧ f a c' = .ok b c'' := by
  cases hr : p c with
  | error x c' =>
    rw [bind_error hr] at h
    cases h
  | ok a c' =>
    rw [bind_ok hr] at h
    exact ⟨a, c', rfl, h⟩

theorem Reads.bind (hp : Reads p ts Q F) (hl : Leads F us G)
    (hf : ∀ a, Q a → Reads (f a) us R G) : Reads (p >>= f) (ts ++ us) R G := by
  intro c t rest hc ht
  -- what `p` sees behind its terminals: the first of `us`, or else the follower
  obtain ⟨u, rest', hu, hFu⟩ : ∃ u rest', us ++ t :: rest = u :: rest' ∧ F u.kind := by
    cases us with
    | nil => exact ⟨t, rest, rfl, hl _ ht⟩
    | cons u us => exact ⟨u, us ++ t :: rest, rfl, hl⟩
  rw [List.append_assoc, hu] at hc
  obtain ⟨a, c', e, ha, hc'⟩ := hp c u rest' hc hFu
  rw [← hu] at hc'
  rw [bind_ok e]
  exact hf a ha c' t rest hc' ht

/-- `Reads.bind` for a part that reads one terminal. -/
theorem Reads.then (hp : Reads p [t] Q F) (hl : Leads F us G)
    (hf : ∀ a, Q a → Reads (f a) us R G) : Reads (p >>= f) (t :: us) R G :=
  hp.bind hl hf

/-- `Reads.bind` for a part that reads nothing. -/
theorem Reads.skip (hp : Reads p [] Q F) (hl : Leads F us G)
    (hf : ∀ a, Q a → Reads (f a) us R G) : Reads (p >>= f) us R G :=
  hp.bind hl hf

/-- A function of what is read. -/
theorem Reads.map {g : α → β} (hp : Reads p ts Q F) (h : ∀ a, Q a → R (g a)) :
    Reads (p >>= fun a => Pure.pure (g a)) ts R F := by
  rw [← List.append_nil ts]
  exact hp.bind (leads_nil fun _ h => h) fun a ha => Reads.pure (h a ha)

/-- A function of one value that is read. -/
theorem Reads.map_eq {g : α → β} {a : α} (hp : Reads p ts (· = a) F) :
    Reads (p >>= fun a => Pure.pure (g a)) ts (· = g a) F := by
  refine hp.map ?_
  rintro _ rfl
  rfl

theorem Fails.append (h : Fails p ts) : Fails p (ts ++ us) := by
  intro c rest hc
  rw [List.append_assoc] at hc
  exact h c _ hc

theorem Fails.bind (h : Fails p ts) : Fails (p >>= f) ts := by
  intro c rest hc
  obtain ⟨e, c', h'⟩ := h c rest hc
  exact ⟨e, c', bind_error h'⟩

/-- The first part succeeds and the second fails. -/
theorem Reads.bind_fails (hp : Reads p ts Q F) (hne : us ≠ []) (hl : Leads F us G)
    (hf : ∀ a, Q a → Fails (f a) us) : Fails (p >>= f) (ts ++ us) := by
  intro c rest hc
  obtain ⟨u, us, rfl⟩ := List.exists_cons_of_ne_nil hne
  rw [List.append_assoc, List.cons_append] at hc
  obtain ⟨a, c', e, ha, hc'⟩ := hp c u (us ++ rest) hc hl
  rw [bind_ok e]
  exact hf a ha c' rest (by rw [hc', List.cons_append])

/-- `Reads.bind_fails` for a part that reads one terminal. -/
theorem Reads.then_fails (hp : Reads p [t] Q Any) (hne : us ≠ []) (hf : ∀ a, Q a → Fails (f a) us) :
    Fails (p >>= f) (t :: us) :=
  hp.bind_fails hne (leads_any (G := Any)) hf

/-! ## Single tokens -/

theorem terminals_eq_cons {c : Cursor} {rest : List Terminal} (h : c.terminals = t :: rest) :
    ∃ tok c', tok.terminal = t ∧ c'.terminals = rest ∧ c.peek = tok ∧ c.advance = c' := by
  obtain ⟨_ | ⟨tok, toks⟩, b⟩ := c
  · simp [Cursor.terminals] at h
  · simp only [Cursor.terminals, List.map_cons, List.cons.injEq] at h
    exact ⟨tok, ⟨toks, b⟩, h.1, h.2, rfl, rfl⟩

theorem peek_bind (c : Cursor) (f : Token → Production β) : (peek >>= f) c = f c.peek c := rfl

theorem second_bind (c : Cursor) (f : Token → Production β) : (second >>= f) c = f c.second c := rfl

theorem Reads.peek {f : Token → Production β}
    (h : ∀ tok : Token, tok.terminal = u → Reads (f tok) (u :: us) R G) :
    Reads (peek >>= f) (u :: us) R G := by
  intro c t rest hc ht
  obtain ⟨tok, _, hu, -, hp, -⟩ := terminals_eq_cons hc
  rw [peek_bind, hp]
  exact h tok hu c t rest hc ht

theorem Reads.second {v : Terminal} {f : Token → Production β}
    (h : ∀ tok : Token, tok.terminal = v → Reads (f tok) (u :: v :: us) R G) :
    Reads (second >>= f) (u :: v :: us) R G := by
  intro c t rest hc ht
  obtain ⟨tok, c', hu, hc', hp, ha⟩ := terminals_eq_cons hc
  obtain ⟨tok', _, hv, -, hp', -⟩ := terminals_eq_cons hc'
  rw [second_bind, show c.second = c'.peek by rw [← ha]; rfl, hp']
  exact h tok' hv c t rest hc ht

theorem Fails.peek {f : Token → Production β} (h : ∀ tok : Token, tok.terminal = u → Fails (f tok) (u :: us)) :
    Fails (Production.peek >>= f) (u :: us) := by
  intro c rest hc
  obtain ⟨tok, _, hu, -, hp, -⟩ := terminals_eq_cons hc
  rw [peek_bind, hp]
  exact h tok hu c rest hc

theorem Fails.second {v : Terminal} {f : Token → Production β}
    (h : ∀ tok : Token, tok.terminal = v → Fails (f tok) (u :: v :: us)) :
    Fails (Production.second >>= f) (u :: v :: us) := by
  intro c rest hc
  obtain ⟨tok, c', hu, hc', hp, ha⟩ := terminals_eq_cons hc
  obtain ⟨tok', _, hv, -, hp', -⟩ := terminals_eq_cons hc'
  rw [second_bind, show c.second = c'.peek by rw [← ha]; rfl, hp']
  exact h tok' hv c rest hc

/-- A second token that does not matter. -/
theorem Reads.anySecond {f : Token → Production β} (h : ∀ tok, Reads (f tok) us R G) :
    Reads (Production.second >>= f) us R G := by
  intro c t rest hc ht
  rw [second_bind]
  exact h c.second c t rest hc ht

theorem reads_advance : Reads advance [t] (fun _ => True) Any := by
  intro c u rest hc _
  obtain ⟨_, c', -, hc', -, ha⟩ := terminals_eq_cons hc
  exact ⟨(), c', by rw [← ha]; rfl, trivial, hc'⟩

theorem reads_next : Reads next [t] (·.terminal = t) Any :=
  Reads.peek fun _ htok => reads_advance.then leads_any fun _ _ => Reads.pure htok

theorem reads_check {k : TokenKind} : Reads (check k) [] (· = true) (· = k) := by
  intro c t rest hc ht
  obtain ⟨tok, _, rfl, -, hp, -⟩ := terminals_eq_cons hc
  refine ⟨_, c, rfl, ?_, hc⟩
  rw [hp]
  exact decide_eq_true ht

theorem reads_check_other {k : TokenKind} : Reads (check k) [] (· = false) (· ≠ k) := by
  intro c t rest hc ht
  obtain ⟨tok, _, rfl, -, hp, -⟩ := terminals_eq_cons hc
  refine ⟨_, c, rfl, ?_, hc⟩
  rw [hp]
  exact decide_eq_false ht

theorem reads_accept {k : TokenKind} (h : t.kind = k) : Reads (accept k) [t] (· = true) Any := by
  refine reads_check.skip (leads_cons h) ?_
  rintro _ rfl
  exact reads_advance.then leads_any fun _ _ => Reads.pure rfl

theorem reads_accept_other {k : TokenKind} : Reads (accept k) [] (· = false) (· ≠ k) := by
  refine reads_check_other.skip (leads_nil fun _ h => h) ?_
  rintro _ rfl
  exact Reads.pure rfl

/-- What is no word is not a given one. -/
theorem reads_acceptWord_other {w : String} :
    Reads (acceptWord w) [] (· = false) (·.isWord = false) := by
  intro c t rest hc ht
  obtain ⟨tok, _, rfl, -, hp, -⟩ := terminals_eq_cons hc
  refine ⟨false, c, ?_, rfl, hc⟩
  have hk : c.peek.kind.isWord = false := by rw [hp]; exact ht
  show (peek >>= _) c = _
  rw [peek_bind]
  simp only [hk, Bool.false_and, Bool.false_eq_true, if_false]
  rfl

theorem reads_acceptWord {w : String} (hk : t.kind.isWord = true) (hw : asciiLower t.value = w) :
    Reads (acceptWord w) [t] (· = true) Any := by
  refine Reads.peek fun tok htok => ?_
  subst htok
  have h : (tok.kind.isWord && asciiLower tok.value == w) = true := by
    rw [Bool.and_eq_true, beq_iff_eq]
    exact ⟨hk, hw⟩
  rw [if_pos h]
  exact reads_advance.then leads_any fun _ _ => Reads.pure rfl

theorem reads_expect {k : TokenKind} (h : t.kind = k) : Reads (expect k) [t] (·.terminal = t) Any := by
  refine reads_check.skip (leads_cons h) ?_
  rintro _ rfl
  exact reads_next

theorem reads_word {what : Expectation} (h : t.kind.isWord = true) :
    Reads (word what) [t] (· = t.value) Any := by
  refine Reads.peek fun tok htok => ?_
  subst htok
  rw [if_pos (show tok.kind.isWord = true from h)]
  refine reads_next.then leads_any ?_
  rintro tok' htok'
  exact Reads.pure (congrArg Terminal.value htok')

theorem reads_string (s : String) : Reads string [.string s] (· = s) Any := by
  refine (reads_expect rfl).then leads_any ?_
  rintro tok htok
  exact Reads.pure (congrArg Terminal.value htok)

/-! ## Line breaks -/

theorem reads_skipNewlines (n : Nat) :
    Reads skipNewlines (List.replicate n (.mark '\n')) (fun _ => True) (· ≠ .newline) := by
  intro c t rest hc ht
  refine ⟨(), _, rfl, trivial, ?_⟩
  have hskip : ∀ x ∈ List.replicate n (Terminal.mark '\n'), (x.kind == TokenKind.newline) = true := by
    intro x hx
    rw [List.eq_of_mem_replicate hx]
    rfl
  have hmap : (c.rest.dropWhile (·.kind == .newline)).map Token.terminal =
      c.terminals.dropWhile (·.kind == .newline) := by
    rw [Cursor.terminals, List.dropWhile_map]
    rfl
  show (c.rest.dropWhile (·.kind == .newline)).map Token.terminal = t :: rest
  rw [hmap, hc, List.dropWhile_append_of_pos hskip]
  simp [ht]

/-! ## Repetition -/

theorem manyAtMost_succ (step : Production (Option α)) (n : Nat) :
    manyAtMost step (n + 1) = step >>= fun
      | none => Pure.pure []
      | some a => manyAtMost step n >>= fun as => Pure.pure (a :: as) := rfl

section
variable {ι : Type} {step : Production (Option α)} {xs : List ι} {g : ι → List Terminal} {v : ι → α}

/-- The terminals of an item are one round each, and the last round reads the terminals behind them. -/
theorem reads_manyAtMost (hx : ∀ x ∈ xs, Reads step (g x) (· = some (v x)) F)
    (hg : ∀ x ∈ xs, Leads F (g x) F) (hend : Reads step us (· = none) G) (hl : Leads F us G) {n : Nat}
    (hn : xs.length < n) : Reads (manyAtMost step n) (xs.flatMap g ++ us) (· = xs.map v) G := by
  induction xs generalizing n with
  | nil =>
    cases n with
    | zero => omega
    | succ n =>
      rw [manyAtMost_succ, List.flatMap_nil, List.nil_append, ← List.append_nil us]
      refine hend.bind (leads_nil fun _ h => h) ?_
      rintro _ rfl
      exact Reads.pure rfl
  | cons x xs ih =>
    cases n with
    | zero => omega
    | succ n =>
      have hx' := fun y hy => hx y (List.mem_cons_of_mem x hy)
      have hg' := fun y hy => hg y (List.mem_cons_of_mem x hy)
      rw [manyAtMost_succ, List.flatMap_cons, List.append_assoc]
      refine (hx x List.mem_cons_self).bind (leads_flatMap hg' hl) ?_
      rintro _ rfl
      exact (ih hx' hg' (by simpa using hn)).map_eq

theorem length_le_flatMap (hne : ∀ x ∈ xs, g x ≠ []) : xs.length ≤ (xs.flatMap g).length := by
  induction xs with
  | nil => simp
  | cons x xs ih =>
    have h1 := List.length_pos_iff.2 (hne x List.mem_cons_self)
    have h2 := ih fun y hy => hne y (List.mem_cons_of_mem x hy)
    rw [List.flatMap_cons, List.length_append, List.length_cons]
    omega

/-- The rounds suffice, since every item has a terminal of its own. -/
theorem Reads.many (hx : ∀ x ∈ xs, Reads step (g x) (· = some (v x)) F) (hne : ∀ x ∈ xs, g x ≠ [])
    (hg : ∀ x ∈ xs, Leads F (g x) F) (hend : Reads step us (· = none) G) (hl : Leads F us G) :
    Reads (many step) (xs.flatMap g ++ us) (· = xs.map v) G := by
  intro c t rest hc ht
  have hlen : c.rest.length = ((xs.flatMap g ++ us) ++ t :: rest).length := by
    rw [← hc, Cursor.terminals, List.length_map]
  have hle := length_le_flatMap hne
  simp only [List.length_append] at hlen
  exact reads_manyAtMost hx hg hend hl (by omega) c t rest hc ht

theorem manyAtMost_fails (hx : ∀ x ∈ xs, Reads step (g x) (· = some (v x)) F)
    (hg : ∀ x ∈ xs, Leads F (g x) F) (hne : us ≠ []) (hl : Leads F us G) (hf : Fails step us) {n : Nat}
    (hn : xs.length < n) : Fails (manyAtMost step n) (xs.flatMap g ++ us) := by
  induction xs generalizing n with
  | nil =>
    cases n with
    | zero => omega
    | succ n => exact hf.bind
  | cons x xs ih =>
    cases n with
    | zero => omega
    | succ n =>
      have hx' := fun y hy => hx y (List.mem_cons_of_mem x hy)
      have hg' := fun y hy => hg y (List.mem_cons_of_mem x hy)
      rw [manyAtMost_succ, List.flatMap_cons, List.append_assoc]
      refine (hx x List.mem_cons_self).bind_fails (by simp [hne]) (leads_flatMap hg' hl) ?_
      rintro _ rfl
      exact (ih hx' hg' (by simpa using hn)).bind

/-- Items that are read in front of one that fails. -/
theorem Reads.many_fails (hx : ∀ x ∈ xs, Reads step (g x) (· = some (v x)) F)
    (hxs : ∀ x ∈ xs, g x ≠ []) (hg : ∀ x ∈ xs, Leads F (g x) F) (hne : us ≠ []) (hl : Leads F us G)
    (hf : Fails step us) : Fails (Production.many step) (xs.flatMap g ++ us) := by
  intro c rest hc
  have hlen : c.rest.length = ((xs.flatMap g ++ us) ++ rest).length := by
    rw [← hc, Cursor.terminals, List.length_map]
  have hle := length_le_flatMap hxs
  simp only [List.length_append] at hlen
  exact manyAtMost_fails hx hg hne hl hf (by omega) c rest hc

end

/-! ## Lists with commas -/

theorem reads_afterComma {item : Production α} (h : Reads item ts Q F) :
    Reads (afterComma item) (.mark ',' :: ts) (fun x => ∃ a, x = some a ∧ Q a) F := by
  refine (reads_accept rfl).then leads_any ?_
  rintro _ rfl
  rw [if_pos rfl]
  exact h.map fun a ha => ⟨a, rfl, ha⟩

theorem afterComma_fails {item : Production α} (hne : ts ≠ []) (h : Fails item ts) :
    Fails (afterComma item) (.mark ',' :: ts) := by
  refine (reads_accept (t := .mark ',') rfl).bind_fails hne (leads_any (G := Any)) ?_
  rintro _ rfl
  exact h.bind

theorem reads_afterComma_other {item : Production α} :
    Reads (afterComma item) [] (· = none) (· ≠ .comma) := by
  refine reads_accept_other.skip (leads_nil fun _ h => h) ?_
  rintro _ rfl
  exact Reads.pure rfl

/-- Terminals of items with commas between them. -/
def commaTerminals {ι : Type} (g : ι → List Terminal) : List ι → List Terminal
  | [] => []
  | x :: xs => g x ++ xs.flatMap fun y => .mark ',' :: g y

section
variable {ι : Type} {item : Production α} {x : ι} {xs : List ι} {g : ι → List Terminal} {v : ι → α}

theorem Reads.commaList (hx : ∀ y ∈ x :: xs, Reads item (g y) (· = v y) F) (hF : F .comma)
    (hG : ∀ k, G k → F k ∧ k ≠ .comma) :
    Reads (Production.commaList item) (commaTerminals g (x :: xs)) (· = (x :: xs).map v) G := by
  have hxs : ∀ y ∈ xs, Reads (afterComma item) (.mark ',' :: g y) (· = some (v y)) F := by
    intro y hy
    refine (reads_afterComma (hx y (List.mem_cons_of_mem x hy))).mono ?_ fun _ h => h
    rintro _ ⟨_, rfl, rfl⟩
    rfl
  have hend : Reads (afterComma item) [] (· = none) G :=
    reads_afterComma_other.narrow fun k hk => (hG k hk).2
  have hmany := Reads.many hxs (fun _ _ => List.cons_ne_nil _ _) (fun _ _ => leads_cons hF) hend
    (leads_nil fun k hk => (hG k hk).1)
  rw [List.append_nil] at hmany
  have hl : Leads F (xs.flatMap fun y => .mark ',' :: g y) G := by
    rw [← List.append_nil (xs.flatMap _)]
    exact leads_flatMap (fun _ _ => leads_cons hF) (leads_nil fun k hk => (hG k hk).1)
  refine (hx x List.mem_cons_self).bind hl ?_
  rintro _ rfl
  exact hmany.map_eq

/-- A list in which one item fails. -/
theorem Reads.commaList_fails {y : ι} {ys : List ι} (hx : ∀ z ∈ xs, Reads item (g z) (· = v z) F)
    (hF : F .comma) (hne : g y ≠ []) (hf : Fails item (g y)) :
    Fails (Production.commaList item) (commaTerminals g (xs ++ y :: ys)) := by
  cases xs with
  | nil => exact hf.bind.append
  | cons x xs =>
    have hxs : ∀ z ∈ xs, Reads (afterComma item) (.mark ',' :: g z) (· = some (v z)) F := by
      intro z hz
      refine (reads_afterComma (hx z (List.mem_cons_of_mem x hz))).mono ?_ fun _ h => h
      rintro _ ⟨_, rfl, rfl⟩
      rfl
    have hmany := Reads.many_fails (G := Any) hxs (fun _ _ => List.cons_ne_nil _ _)
      (fun _ _ => leads_cons hF) (List.cons_ne_nil _ _) (leads_cons hF) (afterComma_fails hne hf)
    have hshape : commaTerminals g (x :: xs ++ y :: ys) =
        (g x ++ ((xs.flatMap fun z => .mark ',' :: g z) ++ .mark ',' :: g y)) ++
          ys.flatMap fun z => .mark ',' :: g z := by
      simp [commaTerminals, List.flatMap_append]
    rw [hshape]
    have hl : Leads F ((xs.flatMap fun z => .mark ',' :: g z) ++ .mark ',' :: g y) Any :=
      leads_flatMap (fun _ _ => leads_cons hF) (leads_cons hF)
    exact Fails.append ((hx x List.mem_cons_self).bind_fails (by simp) hl fun _ _ => hmany.bind)

end

end Production

end Erd
