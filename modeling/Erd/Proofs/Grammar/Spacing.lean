import Erd.Proofs.Grammar.Image
import Erd.Proofs.Grammar.Predictive
import Erd.Proofs.Token.Filler

/-!
# Spacing carries no meaning

What a source declares, and what is said of one that declares nothing, depends on the terminals alone and
not on the places of tokens.  So blanks and closed comments may be put in front of any token.

    (tokenize y).map terminal = (tokenize x).map terminal → SameOutcome (parse x) (parse y)
                                                                               (sameOutcome_of_terminals)
    t ∈ tokenize (a ++ b) → t stands between a and b → Filler f →
      SameOutcome (parse (a ++ b)) (parse (a ++ f ++ b))                       (parse_filled)
-/

namespace Erd

namespace Cursor

/-- Cursors with the same terminals have the same terminals ahead, also past their ends. -/
theorem ahead_congr {c d : Cursor} (hc : c.Closed) (hd : d.Closed) (h : d.terminals = c.terminals) (n : Nat) :
    d.ahead n = c.ahead n := by
  induction n generalizing c d with
  | zero => rfl
  | succ n ih =>
    obtain ⟨ts, b⟩ := c
    obtain ⟨us, b'⟩ := d
    have hb : b'.terminal = b.terminal := hd.trans hc.symm
    have hend : (Cursor.mk [] b').ahead n = (Cursor.mk [] b).ahead n := ih hc hd rfl
    match ts, us with
    | [], [] =>
      show b'.terminal :: (Cursor.mk [] b').ahead n = b.terminal :: (Cursor.mk [] b).ahead n
      rw [hb, hend]
    | t :: ts, u :: us =>
      obtain ⟨ht, hts⟩ := List.cons.inj h
      have htail : (Cursor.mk us b').ahead n = (Cursor.mk ts b).ahead n := ih hc hd hts
      show u.terminal :: (Cursor.mk us b').ahead n = t.terminal :: (Cursor.mk ts b).ahead n
      rw [htail]
      exact congrArg (· :: _) ht
    | [], u :: us => cases h
    | t :: ts, [] => cases h

end Cursor

namespace Production

open Cursor

variable {α : Type} {p : Production α} {H : TokenKind → Prop} {F : α → TokenKind → Prop} {c d : Cursor}

/-- With the same terminals ahead a predictive production reads the same value. -/
theorem Predictive.ok_congr (h : Predictive p H F) (hc : c.Closed) (hd : d.Closed)
    (hcd : ∀ n, d.ahead n = c.ahead n) {a : α} {c' : Cursor} (e : p c = .ok a c') : ∃ d', p d = .ok a d' := by
  obtain ⟨n, -, -, hpass⟩ := (h.run c hc).of_ok hc e
  exact ⟨_, hpass.run hd (hcd n) (Or.inl (peek_agree (hcd (n + 1))))⟩

/-- With the same terminals ahead a predictive production fails for the same cause at the same terminal. -/
theorem Predictive.error_congr (h : Predictive p H F) (hc : c.Closed) (hd : d.Closed)
    (hcd : ∀ n, d.ahead n = c.ahead n) {e : SyntaxError} {c' : Cursor} (he : p c = .error e c') :
    ∃ e' d', p d = .error e' d' ∧ e'.cause = e.cause ∧ e'.token.terminal = e.token.terminal := by
  obtain ⟨n, htok, hfails, -⟩ := (h.run c hc).of_error hc he
  obtain ⟨d', hd'⟩ := hfails d hd (hcd (n + 2))
  refine ⟨_, d', hd', rfl, ?_⟩
  rw [htok]
  exact peek_agree (hcd (n + 1))

end Production

namespace SyntaxError

variable {e e' : SyntaxError}

/-- A message says nothing of a place. -/
theorem message_congr (hcause : e'.cause = e.cause) (htoken : e'.token.terminal = e.token.terminal) :
    e'.message = e.message := by
  have hkind : e'.token.kind = e.token.kind := Token.kind_eq htoken
  have hvalue : e'.token.value = e.token.value := Token.value_eq htoken
  simp only [message, found, hcause, hkind, hvalue]

theorem value?_congr (htoken : e'.token.terminal = e.token.terminal) : e'.value? = e.value? := by
  have hkind : e'.token.kind = e.token.kind := Token.kind_eq htoken
  have hvalue : e'.token.value = e.token.value := Token.value_eq htoken
  simp only [value?, hkind, hvalue]

end SyntaxError

namespace Schema

open Production Cursor

/-- The same schema, or errors that differ in their place alone. -/
inductive SameOutcome : Except SyntaxError Schema → Except SyntaxError Schema → Prop where
  | schema (s : Schema) : SameOutcome (.ok s) (.ok s)
  | error {e e' : SyntaxError} (message : e'.message = e.message) (value : e'.value? = e.value?) :
      SameOutcome (.error e) (.error e')

/-- The places of tokens have no say in what a source declares. -/
theorem sameOutcome_of_terminals {x y : String}
    (h : (tokenize y).map Token.terminal = (tokenize x).map Token.terminal) :
    SameOutcome (parse x) (parse y) := by
  have hcd := ahead_congr (closed_ofTokens (tokenize x)) (closed_ofTokens (tokenize y)) h
  cases hx : parse x with
  | ok s =>
    obtain ⟨c', hc'⟩ := parse_eq_ok.1 hx
    have hy := predictive_document.ok_congr (closed_ofTokens _) (closed_ofTokens _) hcd hc'
    rw [parse_eq_ok.2 hy]
    exact .schema s
  | error e =>
    obtain ⟨c', hc'⟩ := parse_eq_error.1 hx
    obtain ⟨e', d', hd', hcause, htoken⟩ :=
      predictive_document.error_congr (closed_ofTokens _) (closed_ofTokens _) hcd hc'
    rw [parse_eq_error.2 ⟨d', hd'⟩]
    exact .error (SyntaxError.message_congr hcause htoken) (SyntaxError.value?_congr htoken)

/-- Every token but the end stands behind some front of its source, which its place determines.  A filler
in between leaves kinds and values of all tokens as they are, and so what the source declares. -/
theorem parse_filled {x : String} {t : Token} (ht : t ∈ tokenize x) (hend : t.kind ≠ .endOfInput) :
    (∃ a b, x = a ++ b ∧ t.start = Position.start.advance a.toList) ∧
      ∀ a b, x = a ++ b → t.start = Position.start.advance a.toList → ∀ f : String, Filler f.toList →
        (tokenize (a ++ f ++ b)).map Token.terminal = (tokenize x).map Token.terminal ∧
          SameOutcome (parse x) (parse (a ++ f ++ b)) := by
  obtain ⟨front, rest, hx, hb, hstart⟩ := Scanner.exists_boundary ht hend
  have hx : x.toList = front ++ rest := hx
  constructor
  · refine ⟨String.ofList front, String.ofList rest, ?_, ?_⟩
    · rw [← String.ofList_append, ← hx, String.ofList_toList]
    · rw [String.toList_ofList]
      exact hstart
  · intro a b hab hplace f hf
    have hab : front ++ rest = a.toList ++ b.toList := by rw [← hx, hab, String.toList_append]
    obtain ⟨rfl, rfl⟩ := Position.advance_inj hab (hstart.symm.trans hplace)
    have hsame : (tokenize (a ++ f ++ b)).map Token.terminal = (tokenize x).map Token.terminal := by
      rw [terminal_tokenize, terminal_tokenize, hx, String.toList_append, String.toList_append, List.append_assoc,
        terminals_filled hb hf]
    exact ⟨hsame, sameOutcome_of_terminals hsame⟩

/-- A number in front of a dot, a lone slash, half an operator, and a comment up to the end of its line. -/
def halves : String := "Table t \x7b\n a int 7./x <// n\n\x7d"

theorem filler_comment : Filler " /***/\t".toList := by
  have hlist : " /***/\t".toList = ' ' :: '/' :: '*' :: (['*'] ++ '*' :: '/' :: ['\t']) := by decide
  rw [hlist]
  exact ⟨⟨' ', _, rfl, rfl⟩, .blank rfl (.comment (by decide) (.blank rfl .nil)), by decide⟩

/-- A filler parts the number from the dot, and becomes part of the comment. -/
theorem parse_filled_halves :
    (∃ t ∈ tokenize halves, t.kind = .dot ∧
        t.start = Position.start.advance "Table t \x7b\n a int 7".toList) ∧
      (∃ t ∈ tokenize halves, t.kind = .newline ∧
        t.start = Position.start.advance "Table t \x7b\n a int 7./x <// n".toList) ∧
      Filler " /***/\t".toList ∧
      SameOutcome (parse halves) (parse ("Table t \x7b\n a int 7" ++ " /***/\t" ++ "./x <// n\n\x7d")) ∧
      SameOutcome (parse halves) (parse ("Table t \x7b\n a int 7./x <// n" ++ " /***/\t" ++ "\n\x7d")) := by
  have hx : tokenize halves =
      [⟨.table, "Table", ⟨1, 1⟩⟩, ⟨.identifier, "t", ⟨1, 7⟩⟩, ⟨.openBrace, "\x7b", ⟨1, 9⟩⟩, ⟨.newline, "\n", ⟨1, 10⟩⟩,
       ⟨.identifier, "a", ⟨2, 2⟩⟩, ⟨.identifier, "int", ⟨2, 4⟩⟩, ⟨.number, "7", ⟨2, 8⟩⟩, ⟨.dot, ".", ⟨2, 9⟩⟩,
       ⟨.unknown, "/", ⟨2, 10⟩⟩, ⟨.identifier, "x", ⟨2, 11⟩⟩, ⟨.less, "<", ⟨2, 13⟩⟩, ⟨.newline, "\n", ⟨2, 18⟩⟩,
       ⟨.closeBrace, "\x7d", ⟨3, 1⟩⟩, .endAt ⟨3, 2⟩] := by decide +kernel
  have hdot : (⟨.dot, ".", ⟨2, 9⟩⟩ : Token) ∈ tokenize halves := by
    rw [hx]
    decide
  have hline : (⟨.newline, "\n", ⟨2, 18⟩⟩ : Token) ∈ tokenize halves := by
    rw [hx]
    decide
  refine ⟨⟨_, hdot, rfl, by decide⟩, ⟨_, hline, rfl, by decide⟩, filler_comment, ?_, ?_⟩
  · exact ((parse_filled hdot (by decide)).2 _ _ (by decide) (by decide) _ filler_comment).2
  · exact ((parse_filled hline (by decide)).2 _ _ (by decide) (by decide) _ filler_comment).2

end Schema

end Erd
