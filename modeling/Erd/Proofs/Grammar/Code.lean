import Erd.Grammar.Document

/-!
# Codes of productions

A production is a function, and a function takes no rounds.  Its code says how it is made of single tokens,
sequences, branches and loops, and running the code counts the rounds of its loops.  A loop of a code goes on for
as long as its step gives a value, whatever bound `many` sets, so to have a run is also to end.

    code.Runs c n r → code.Runs c m s → n = m ∧ r = s                                      (Code.runs_unique)
    code.Runs c n r → c.Reaches r.stop                                                   (Code.Runs.reaches)
-/

namespace Erd

namespace Cursor

/-- The second cursor is the first or stands behind it in the same list. -/
def Reaches (c d : Cursor) : Prop := d.rest <:+ c.rest ∧ d.beyond = c.beyond

variable {c d e : Cursor}

theorem Reaches.refl (c : Cursor) : c.Reaches c := ⟨List.suffix_rfl, rfl⟩

theorem Reaches.trans (h : c.Reaches d) (h' : d.Reaches e) : c.Reaches e := ⟨h'.1.trans h.1, h'.2.trans h.2⟩

theorem reaches_advance (c : Cursor) : c.Reaches c.advance := ⟨List.tail_suffix _, rfl⟩

theorem Reaches.length_le (h : c.Reaches d) : d.rest.length ≤ c.rest.length := h.1.length_le

end Cursor

namespace Production

open Cursor

/-- How a production is made. -/
inductive Code : {α : Type} → Production α → Type 1 where
  | pure {α : Type} (a : α) : Code (Pure.pure a)
  | throw {α : Type} (e : SyntaxError) : Code (throw e : Production α)
  | peek : Code peek
  | second : Code second
  | advance : Code advance
  | bind {α β : Type} {p : Production α} {f : α → Production β} (first : Code p) (rest : ∀ a, Code (f a)) :
      Code (p >>= f)
  | ite {α : Type} {b : Prop} [Decidable b] {p q : Production α} (yes : Code p) (no : Code q) :
      Code (if b then p else q)
  | skipNewlines : Code skipNewlines
  | many {α : Type} {step : Production (Option α)} (round : Code step) : Code (many step)

/-! ## Runs -/

abbrev Result (α : Type) := EStateM.Result SyntaxError Cursor α

/-- Where a production stopped, with a value or an error. -/
def Result.stop {α : Type} : Result α → Cursor
  | .ok _ c => c
  | .error _ c => c

/-- The values of a loop with one more in front. -/
def Result.cons {α : Type} (a : α) : Result (List α) → Result (List α)
  | .ok as c => .ok (a :: as) c
  | .error e c => .error e c

/-- So many line breaks stand between two cursors, and none at the second. -/
inductive Newlines : Cursor → Nat → Cursor → Prop where
  | stop {c : Cursor} (h : c.peek.kind ≠ .newline) : Newlines c 0 c
  | newline {c d : Cursor} {n : Nat} (h : c.peek.kind = .newline) (rest : Newlines c.advance n d) :
      Newlines c (n + 1) d

/-- The runs of a loop by those of its step: each round counts for itself and for the rounds within it. -/
inductive Loop {α : Type} (Round : Cursor → Nat → Result (Option α) → Prop) :
    Cursor → Nat → Result (List α) → Prop where
  | error {c c' : Cursor} {n : Nat} {e : SyntaxError} (h : Round c n (.error e c')) :
      Loop Round c (n + 1) (.error e c')
  | last {c c' : Cursor} {n : Nat} (h : Round c n (.ok none c')) : Loop Round c (n + 1) (.ok [] c')
  | again {c c' : Cursor} {m n : Nat} {a : α} {r : Result (List α)} (h : Round c m (.ok (some a) c'))
      (rest : Loop Round c' n r) : Loop Round c (m + 1 + n) (Result.cons a r)

/-- Running the code from a cursor takes so many rounds of loops and comes to this result. -/
def Code.Runs : {α : Type} → {p : Production α} → Code p → Cursor → Nat → Result α → Prop
  | _, _, .pure a, c, n, r => n = 0 ∧ r = .ok a c
  | _, _, .throw e, c, n, r => n = 0 ∧ r = .error e c
  | _, _, .peek, c, n, r => n = 0 ∧ r = .ok c.peek c
  | _, _, .second, c, n, r => n = 0 ∧ r = .ok c.second c
  | _, _, .advance, c, n, r => n = 0 ∧ r = .ok () c.advance
  | _, _, .bind first rest, c, n, r =>
    (∃ e c', first.Runs c n (.error e c') ∧ r = .error e c') ∨
      ∃ a c' m m', first.Runs c m (.ok a c') ∧ (rest a).Runs c' m' r ∧ n = m + m'
  | _, _, @Code.ite _ b _ _ _ yes no, c, n, r => (b ∧ yes.Runs c n r) ∨ (¬ b ∧ no.Runs c n r)
  | _, _, .skipNewlines, c, n, r => ∃ d, Newlines c n d ∧ r = .ok () d
  | _, _, .many round, c, n, r => Loop round.Runs c n r

section

variable {α : Type} {p : Production α} {c d d' : Cursor} {m n : Nat} {r s : Result α}

theorem Newlines.unique (h : Newlines c n d) (h' : Newlines c m d') : n = m ∧ d = d' := by
  induction h generalizing m with
  | stop hk =>
    cases h' with
    | stop => exact ⟨rfl, rfl⟩
    | newline hk' => exact absurd hk' hk
  | newline hk rest ih =>
    cases h' with
    | stop hk' => exact absurd hk hk'
    | newline _ rest' =>
      obtain ⟨rfl, rfl⟩ := ih rest'
      exact ⟨rfl, rfl⟩

theorem Newlines.reaches (h : Newlines c n d) : c.Reaches d := by
  induction h with
  | stop => exact .refl _
  | newline _ _ ih => exact (reaches_advance _).trans ih

theorem Loop.unique {Round : Cursor → Nat → Result (Option α) → Prop} {r s : Result (List α)}
    (h : Loop Round c n r) (h' : Loop Round c m s)
    (hRound : ∀ {c m n r s}, Round c n r → Round c m s → n = m ∧ r = s) : n = m ∧ r = s := by
  induction h generalizing m s with
  | error h =>
    cases h' with
    | error h' => obtain ⟨rfl, ⟨⟩⟩ := hRound h h'; exact ⟨rfl, rfl⟩
    | last h' => cases (hRound h h').2
    | again h' => cases (hRound h h').2
  | last h =>
    cases h' with
    | error h' => cases (hRound h h').2
    | last h' => obtain ⟨rfl, ⟨⟩⟩ := hRound h h'; exact ⟨rfl, rfl⟩
    | again h' => cases (hRound h h').2
  | again h _ ih =>
    cases h' with
    | error h' => cases (hRound h h').2
    | last h' => cases (hRound h h').2
    | again h' rest' =>
      obtain ⟨rfl, ⟨⟩⟩ := hRound h h'
      obtain ⟨rfl, rfl⟩ := ih rest'
      exact ⟨rfl, rfl⟩

/-- Running a code is no choice. -/
theorem Code.runs_unique (code : Code p) (h : code.Runs c n r) (h' : code.Runs c m s) : n = m ∧ r = s := by
  induction code generalizing c n m with
  | pure | throw | peek | second | advance =>
    obtain ⟨rfl, rfl⟩ := h
    obtain ⟨rfl, rfl⟩ := h'
    exact ⟨rfl, rfl⟩
  | bind first rest ih ih' =>
    obtain ⟨e, c₁, h, rfl⟩ | ⟨a, c₁, n₁, n₂, h, hr, rfl⟩ := h <;>
      obtain ⟨e', c₂, h', rfl⟩ | ⟨a', c₂, m₁, m₂, h', hs, rfl⟩ := h' <;>
      obtain ⟨rfl, e⟩ := ih h h' <;> cases e
    · exact ⟨rfl, rfl⟩
    · obtain ⟨rfl, rfl⟩ := ih' a hr hs
      exact ⟨rfl, rfl⟩
  | ite yes no ih ih' =>
    obtain ⟨hb, h⟩ | ⟨hb, h⟩ := h <;> obtain ⟨hb', h'⟩ | ⟨hb', h'⟩ := h'
    · exact ih h h'
    · exact absurd hb hb'
    · exact absurd hb' hb
    · exact ih' h h'
  | skipNewlines =>
    obtain ⟨d, h, rfl⟩ := h
    obtain ⟨d', h', rfl⟩ := h'
    obtain ⟨rfl, rfl⟩ := h.unique h'
    exact ⟨rfl, rfl⟩
  | many round ih =>
    have h : Loop round.Runs c n r := h
    exact h.unique h' ih

theorem Loop.reaches {Round : Cursor → Nat → Result (Option α) → Prop}
    (hRound : ∀ {c n r}, Round c n r → c.Reaches (Result.stop r)) {r : Result (List α)} (h : Loop Round c n r) :
    c.Reaches r.stop := by
  induction h with
  | error h => exact hRound h
  | last h => exact hRound h
  | @again _ _ _ _ a r h _ ih =>
    have hstop : (Result.cons a r).stop = r.stop := by cases r <;> rfl
    exact hstop ▸ (hRound h).trans ih

/-- A run goes forward in its list of tokens, and stays in it. -/
theorem Code.Runs.reaches (code : Code p) (h : code.Runs c n r) : c.Reaches r.stop := by
  induction code generalizing c n with
  | pure | throw | peek | second =>
    obtain ⟨-, rfl⟩ := h
    exact .refl c
  | advance =>
    obtain ⟨-, rfl⟩ := h
    exact reaches_advance c
  | bind first rest ih ih' =>
    obtain ⟨e, c₁, h, rfl⟩ | ⟨a, c₁, n₁, n₂, h, hr, -⟩ := h
    · exact ih h
    · exact (ih h).trans (ih' a hr)
  | ite yes no ih ih' =>
    obtain ⟨-, h⟩ | ⟨-, h⟩ := h
    · exact ih h
    · exact ih' h
  | skipNewlines =>
    obtain ⟨d, h, rfl⟩ := h
    exact h.reaches
  | many round ih => exact Loop.reaches ih h

end

namespace Code

/-! ## Single tokens -/

variable {α β : Type} {p q : Production α}

/-- A function of what is read. -/
def map {g : α → β} (code : Code p) : Code (p >>= fun a => Pure.pure (g a)) := .bind code fun a => .pure (g a)

/-- The code of a production in another form. -/
def cast (code : Code p) (h : p = q) : Code q := h ▸ code

def next : Code next := .bind .peek fun t => .bind .advance fun _ => .pure t

def expected (what : Expectation) : Code (expected what : Production α) := .bind .peek fun t => .throw ⟨.expected what, t⟩

def check (k : TokenKind) : Code (check k) := .map .peek

def accept (k : TokenKind) : Code (accept k) := .bind (.check k) fun _ => .ite (.map .advance) (.pure false)

def acceptWord (word : String) : Code (acceptWord word) := .bind .peek fun _ => .ite (.map .advance) (.pure false)

def expect (k : TokenKind) : Code (expect k) := .bind (.check k) fun _ => .ite .next (.expected _)

def word (what : Expectation) : Code (word what) := .bind .peek fun _ => .ite (.map .next) (.expected _)

def string : Code string := .map (.expect .string)

/-! ## Repetition -/

def afterComma (item : Code p) : Code (afterComma p) := .bind (.accept .comma) fun _ => .ite (.map item) (.pure none)

def commaList (item : Code p) : Code (commaList p) := .bind item fun _ => .map (.many (.afterComma item))

/-! ## Columns -/

def relationType : Code relationType := .bind .peek fun t => match relationTypeOf? t.kind with
  | some _ => .map .advance
  | none => .expected _

def endpoint : Code endpoint := .bind (.word _) fun _ => .bind (.expect _) fun _ => .map (.word _)

def numberOf (t : Token) : Code (numberOf t) := by
  delta Production.numberOf
  exact match Binary64.ofText? t.value with
    | some x => .pure x
    | none => .throw ⟨.number, t⟩

-- which production is left is known for a given kind only, so a code lists the kinds that fall under the last case
def callPiece : Code callPiece := .bind .peek fun t => match t.kind with
  | .endOfInput | .newline | .closeBracket => .expected _
  | .closeParen | .comma | .string | .table | .enum | .ref | .tableGroup | .asWord | .note | .indexes | .openBrace
  | .closeBrace | .openBracket | .openParen | .colon | .dot | .dash | .less | .greater | .lessGreater | .identifier
  | .number | .unknown => .map .advance

def callArguments : Code callArguments := .bind (.expect _) fun _ => .map (.many callPiece)

def wordValue (w : String) : Code (wordValue w) :=
  .ite (.pure _) <| .ite (.pure _) <| .ite (.pure _) <|
    .bind (.check _) fun _ => .ite (.map callArguments) (.pure _)

def defaultValue : Code defaultValue := .bind .peek fun t => match t.kind with
  | .string => .map .advance
  | .number => .bind .advance fun _ => .map (numberOf t)
  | .dash => .bind .second fun _ => .ite (.bind .advance fun _ => .bind .next fun u => .map (numberOf u)) (.expected _)
  | .identifier | .table | .enum | .ref | .tableGroup | .asWord | .note | .indexes | .openBrace | .closeBrace
  | .openBracket | .closeBracket | .openParen | .closeParen | .comma | .colon | .dot | .less | .greater
  | .lessGreater | .newline | .endOfInput | .unknown =>
    .ite (.bind .advance fun _ => wordValue _) (.expected _)

def ignoredSetting : Code ignoredSetting :=
  .bind (.accept _) fun _ => .ite (.bind .peek fun _ => .ite (.pure _) (.map .advance)) (.pure _)

end Code

/-- A setting by its first word, one word after the other. -/
theorem settingAfter_eq (key : String) : settingAfter key =
    if key ∈ ["pk", "primary", "primary_key"] then acceptWord "key" >>= fun _ => pure .primaryKey
    else if key = "unique" then pure .unique
    else if key ∈ ["notnull", "not_null"] then pure .notNull
    else if key = "not" then acceptWord "null" >>= fun b => if b then pure .notNull else expected .nullWord
    else if key = "null" then pure .nullable
    else if key ∈ ["increment", "auto_increment"] then pure .autoIncrement
    else if key = "default" then
      accept .colon >>= fun b => if b then defaultValue >>= fun v => pure (.default v) else pure .ignored
    else if key = "note" then expect .colon >>= fun _ => string >>= fun s => pure (.note s)
    else if key = "ref" then
      expect .colon >>= fun _ => relationType >>= fun r => endpoint >>= fun e => pure (.reference r e)
    else ignoredSetting := by
  unfold settingAfter
  split <;> first | rfl | simp_all

namespace Code

def settingAfter (key : String) : Code (settingAfter key) :=
  .cast (h := (settingAfter_eq key).symm) <|
    .ite (.map (.acceptWord _)) <| .ite (.pure _) <| .ite (.pure _) <|
    .ite (.bind (.acceptWord _) fun _ => .ite (.pure _) (.expected _)) <| .ite (.pure _) <| .ite (.pure _) <|
    .ite (.bind (.accept _) fun _ => .ite (.map defaultValue) (.pure _)) <|
    .ite (.bind (.expect _) fun _ => .map .string) <|
    .ite (.bind (.expect _) fun _ => .bind relationType fun _ => .map endpoint) ignoredSetting

def setting : Code setting := .bind (.word _) fun _ => settingAfter _

def sizeNumber : Code sizeNumber := .bind (.expect _) fun t => match sizeOfText? t.value with
  | some n => .pure n
  | none => .throw ⟨.size, t⟩

def size : Code size :=
  .bind sizeNumber fun _ => .bind (.accept _) fun _ =>
    .ite (.bind sizeNumber fun _ => .map (.expect _)) (.map (.expect _))

def sizePart : Code sizePart := .bind (.accept _) fun _ => .ite (.map size) (.pure _)

def settingPart : Code settingPart :=
  .bind (.accept _) fun _ => .ite (.bind (.commaList setting) fun _ => .map (.expect _)) (.pure _)

def column : Code column :=
  .bind (.word _) fun _ => .bind (.word _) fun _ => .bind sizePart fun _ => .map settingPart

/-! ## Tables -/

def indexSettingValue : Code indexSettingValue :=
  .bind (.accept _) fun _ => .ite (.bind .peek fun _ => .ite (.map .next) (.expected _)) (.pure _)

def indexSetting : Code indexSetting := .bind (.word _) fun _ => .map indexSettingValue

def indexOn (columns : List String) : Code (indexOn columns) :=
  .bind (.accept _) fun _ => .ite (.bind (.commaList indexSetting) fun _ => .map (.expect _)) (.pure _)

def indexEntry : Code indexEntry := .bind .skipNewlines fun _ => .bind .peek fun t => match t.kind with
  | .closeBrace => .map .advance
  | .endOfInput => .expected _
  | .openParen =>
    .bind .advance fun _ => .bind (.commaList (.word _)) fun _ => .bind (.expect _) fun _ => .map (indexOn _)
  | .identifier | .table | .enum | .ref | .tableGroup | .asWord | .note | .indexes | .openBrace | .openBracket
  | .closeBracket | .closeParen | .comma | .colon | .dot | .dash | .less | .greater | .lessGreater | .string
  | .number | .newline | .unknown =>
    .ite (.bind .next fun _ => .map (indexOn _)) (.map .advance)

def indexes : Code indexes := .bind (.expect _) fun _ => .bind (.expect _) fun _ => .map (.many indexEntry)

def tableItem : Code tableItem :=
  .bind .skipNewlines fun _ => .bind .peek fun _ => .bind .second fun _ =>
    .ite (.map .advance) <| .ite (.expected _) <|
    .ite (.bind .advance fun _ => .bind .advance fun _ => .map .string) <|
    .ite (.map indexes) <| .ite (.map column) (.map .advance)

def tableName : Code tableName :=
  .bind (.word _) fun _ => .bind (.accept _) fun _ => .ite (.map (.word _)) (.pure _)

def tableAlias : Code tableAlias := .bind (.accept _) fun _ => .ite (.map (.word _)) (.pure _)

def table : Code table :=
  .bind (.expect _) fun _ => .bind tableName fun _ => .bind tableAlias fun _ => .bind .skipNewlines fun _ =>
    .bind (.expect _) fun _ => .map (.many tableItem)

/-! ## Documents -/

def enumNote : Code enumNote :=
  .bind (.accept _) fun _ => .ite (.bind (.accept _) fun _ => .ite (.bind (.expect _) fun _ => .bind .string fun _ =>
    .map (.expect _)) (.expected _)) (.pure _)

def enumValue : Code enumValue :=
  .bind .skipNewlines fun _ => .bind .peek fun _ =>
    .ite (.map .advance) <| .ite (.bind .next fun _ => .map enumNote) (.expected _)

def enumeration : Code enumeration :=
  .bind (.expect _) fun _ => .bind (.word _) fun _ => .bind .skipNewlines fun _ => .bind (.expect _) fun _ =>
    .map (.many enumValue)

def relationName : Code relationName := .bind (.check _) fun _ => .ite (.pure _) (.map (.word _))

def relation : Code relation :=
  .bind (.expect _) fun _ => .bind relationName fun _ => .bind (.expect _) fun _ => .bind endpoint fun _ =>
    .bind relationType fun _ => .map endpoint

def groupMember : Code groupMember :=
  .bind .skipNewlines fun _ => .bind (.accept _) fun _ => .ite (.pure _) (.map (.word _))

def tableGroup : Code tableGroup :=
  .bind (.expect _) fun _ => .bind (.word _) fun _ => .bind .skipNewlines fun _ => .bind (.expect _) fun _ =>
    .map (.many groupMember)

def statement : Code statement := .bind .skipNewlines fun _ => .bind .peek fun t => match t.kind with
  | .endOfInput => .pure _
  | .table => .map table
  | .enum => .map enumeration
  | .ref => .map relation
  | .tableGroup => .map tableGroup
  | .asWord | .note | .indexes | .openBrace | .closeBrace | .openBracket | .closeBracket | .openParen | .closeParen
  | .comma | .colon | .dot | .dash | .less | .greater | .lessGreater | .identifier | .string | .number | .newline
  | .unknown => .throw ⟨.statement, t⟩

def document : Code document := .map (.many statement)

end Code

end Production

end Erd
