import Erd.Proofs.Grammar.Written

/-!
# Settings as a source may write them

One item can be written in several ways: in any letter case, with one of several words, with a second word
that may be missing, and with a default of any sort.  An item that means nothing may have a colon and one
terminal behind it.  `WrittenAs` lists the ways, one rule for each, and whichever is taken the item is read
back without the comma or the bracket behind it.

    x.WrittenAs ds → ofText? (String.ofList ds) = some x                            (Binary64.WrittenAs.ofText)
    v.WrittenAs ts → Reads defaultValue ts (· = v) EndsSetting                    (DefaultValue.WrittenAs.reads)
    i.WrittenAs ts → Reads setting ts (· = i) EndsSetting                          (SettingItem.WrittenAs.reads)
-/

namespace Erd

open Production

/-! ## Definitions -/

/-- What stands behind a setting. -/
def EndsSetting (k : TokenKind) : Prop := k = .comma ∨ k = .closeBracket

instance (k : TokenKind) : Decidable (EndsSetting k) := inferInstanceAs (Decidable (_ ∨ _))

/-- The number that is nearest to a numeral. -/
inductive Binary64.WrittenAs : Binary64 → List Char → Prop where
  | whole {ds : List Char} (ne : ds ≠ []) (all : ∀ c ∈ ds, c.isDigit = true) :
      WrittenAs (.ofDecimal false (natOfDigits ds) 0) ds
  | fraction {ds fs : List Char} (ne : ds ≠ []) (all : ∀ c ∈ ds, c.isDigit = true) (fne : fs ≠ [])
      (fall : ∀ c ∈ fs, c.isDigit = true) :
      WrittenAs (.ofDecimal false (natOfDigits (ds ++ fs)) (-(fs.length : Int))) (ds ++ '.' :: fs)

/-- The ways to write a default value. -/
inductive DefaultValue.WrittenAs : DefaultValue → List Terminal → Prop where
  | string (s : String) : WrittenAs (.string s) [.string s]
  | number {x : Binary64} {ds : List Char} (h : x.WrittenAs ds) : WrittenAs (.number x) [.number ds]
  | negative {x : Binary64} {ds : List Char} (h : x.WrittenAs ds) : WrittenAs (.number x.neg) [.mark '-', .number ds]
  | null {w : String} (h : w = "null" ∨ w = "NULL") : WrittenAs .null [.word w]
  | true {w : String} (h : w = "true" ∨ w = "TRUE") : WrittenAs (.boolean Bool.true) [.word w]
  | false {w : String} (h : w = "false" ∨ w = "FALSE") : WrittenAs (.boolean Bool.false) [.word w]
  | bare {w : String} (h : w ∉ valueWords) : WrittenAs (.string w) [.word w]
  | call (w : String) (pieces : List Terminal) (h : w ∉ valueWords) (all : ∀ p ∈ pieces, p.IsPiece) :
      WrittenAs (.string (w ++ ("(" ++ String.join (pieces.map Terminal.pieceText) ++ ")"))) (callTerminals w pieces)

/-- The words that items begin with, in lower case. -/
def settingWords : List String :=
  ["pk", "primary", "primary_key", "unique", "notnull", "not_null", "not", "null", "increment", "auto_increment",
   "default", "note", "ref"]

/-- The ways to write an item. -/
inductive SettingItem.WrittenAs : SettingItem → List Terminal → Prop where
  | primaryKey {w : String} (h : asciiLower w ∈ ["pk", "primary", "primary_key"]) : WrittenAs .primaryKey [.word w]
  | primaryKeyWords {w k : String} (h : asciiLower w ∈ ["pk", "primary", "primary_key"])
      (h' : asciiLower k = "key") : WrittenAs .primaryKey [.word w, .word k]
  | unique {w : String} (h : asciiLower w = "unique") : WrittenAs .unique [.word w]
  | notNull {w : String} (h : asciiLower w ∈ ["notnull", "not_null"]) : WrittenAs .notNull [.word w]
  | notNullWords {w n : String} (h : asciiLower w = "not") (h' : asciiLower n = "null") :
      WrittenAs .notNull [.word w, .word n]
  | nullable {w : String} (h : asciiLower w = "null") : WrittenAs .nullable [.word w]
  | autoIncrement {w : String} (h : asciiLower w ∈ ["increment", "auto_increment"]) :
      WrittenAs .autoIncrement [.word w]
  | default {w : String} {v : DefaultValue} {ts : List Terminal} (h : asciiLower w = "default")
      (hv : v.WrittenAs ts) : WrittenAs (.default v) (.word w :: .mark ':' :: ts)
  | note {w s : String} (h : asciiLower w = "note") : WrittenAs (.note s) [.word w, .mark ':', .string s]
  | reference {w : String} {type : RelationType} {target : Endpoint} (h : asciiLower w = "ref") :
      WrittenAs (.reference type target) (.word w :: .mark ':' :: type.terminal :: target.terminals)
  | noDefault {w : String} (h : asciiLower w = "default") : WrittenAs .ignored [.word w]
  | unknown {w : String} (h : asciiLower w ∉ settingWords) : WrittenAs .ignored [.word w]
  | unknownColon {w : String} (h : asciiLower w ∉ settingWords) : WrittenAs .ignored [.word w, .mark ':']
  | unknownValue {w : String} {t : Terminal} (h : asciiLower w ∉ settingWords) (ht : ¬ EndsSetting t.kind) :
      WrittenAs .ignored [.word w, .mark ':', t]

/-- The ways to write a size, or none. -/
inductive ColumnSize.WrittenAs : Option ColumnSize → List Terminal → Prop where
  | none : WrittenAs none []
  | length {ds : List Char} {n : UInt32} (h : sizeOfText? (String.ofList ds) = some n) :
      WrittenAs (some (.length n)) [.mark '(', .number ds, .mark ')']
  | precision {ds es : List Char} {p q : UInt32} (hp : sizeOfText? (String.ofList ds) = some p)
      (hq : sizeOfText? (String.ofList es) = some q) :
      WrittenAs (some (.precision p q)) [.mark '(', .number ds, .mark ',', .number es, .mark ')']

/-! ## What stands behind a setting -/

theorem EndsSetting.not_isWord {k : TokenKind} (h : EndsSetting k) : k.isWord = false := by
  rcases h with rfl | rfl <;> rfl

theorem EndsSetting.ne {k k' : TokenKind} (h : EndsSetting k) (hc : k' ≠ .comma) (hb : k' ≠ .closeBracket) :
    k ≠ k' := by
  rcases h with rfl | rfl
  · exact hc.symm
  · exact hb.symm

/-! ## Parts -/

theorem Binary64.WrittenAs.ofText {x : Binary64} {ds : List Char} (h : x.WrittenAs ds) :
    ofText? (String.ofList ds) = some x := by
  cases h with
  | whole ne all =>
    have hdecimal := Decimal.decimal_whole ne all
    obtain ⟨d, ds, rfl⟩ := List.exists_cons_of_ne_nil ne
    rw [ofText_digit ds (all d List.mem_cons_self), hdecimal]
    rfl
  | fraction ne all fne fall =>
    have hdecimal := Decimal.decimal_fraction ne all fall
    obtain ⟨d, ds, rfl⟩ := List.exists_cons_of_ne_nil ne
    rw [List.cons_append] at hdecimal ⊢
    rw [ofText_digit _ (all d List.mem_cons_self), hdecimal]
    rfl

namespace Production

theorem kind_word_isWord (w : String) : (Terminal.word w).kind.isWord = true := wordKind_isWord _

/-- A closing mark behind what was read. -/
theorem reads_close {α : Type} {k : TokenKind} {t : Terminal} {F : TokenKind → Prop} {a : α}
    (h : t.kind = k) : Reads (expect k >>= fun _ => Pure.pure a) [t] (· = a) F :=
  (reads_expect h).then leads_any fun _ _ => Reads.pure rfl

end Production

theorem Endpoint.reads (e : Endpoint) : Reads endpoint e.terminals (· = e) Any := by
  refine (reads_word (kind_word_isWord e.table)).then leads_any ?_
  rintro _ rfl
  refine (reads_expect (k := .dot) rfl).then leads_any fun _ _ => ?_
  exact (reads_word (kind_word_isWord e.column)).map_eq

theorem RelationType.reads (r : RelationType) : Reads relationType [r.terminal] (· = r) Any := by
  refine Reads.peek fun tok htok => ?_
  rw [show tok.kind = r.terminal.kind from congrArg Terminal.kind htok]
  cases r with
  | _ => exact reads_advance.then leads_any fun _ _ => Reads.pure rfl

theorem DefaultValue.WrittenAs.reads {v : DefaultValue} {ts : List Terminal} (h : v.WrittenAs ts) :
    Reads defaultValue ts (· = v) EndsSetting := by
  have hword {w : String} (hw : Reads (wordValue w) [] (· = v) Any) :
      Reads defaultValue [.word w] (· = v) EndsSetting := (reads_defaultValue_word hw).ofAny
  cases h with
  | string s => exact (reads_defaultValue_string s).ofAny
  | number hx => exact (reads_defaultValue_digits hx.ofText).ofAny
  | negative hx => exact (reads_defaultValue_negative hx.ofText).ofAny
  | null hw => rcases hw with rfl | rfl <;> exact hword (Reads.pure rfl)
  | true hw => rcases hw with rfl | rfl <;> exact hword (Reads.pure rfl)
  | false hw => rcases hw with rfl | rfl <;> exact hword (Reads.pure rfl)
  | bare hw =>
    refine reads_defaultValue_word ((reads_wordValue_bare hw).narrow ?_)
    exact fun _ h => h.ne (by decide) (by decide)
  | call w pieces hw hall => exact (reads_defaultValue_word (reads_wordValue_call hw hall)).ofAny

/-! ## Items -/

namespace Production

/-- A setting is told by its first word in lower case. -/
theorem reads_setting {w k : String} {ts : List Terminal} {Q : SettingItem → Prop} {F : TokenKind → Prop}
    (hw : asciiLower w = k) (h : Reads (settingAfter k) ts Q F) : Reads setting (.word w :: ts) Q F := by
  refine (reads_word (kind_word_isWord w)).then leads_any fun v hv => ?_
  rw [hv, show asciiLower (Terminal.word w).value = k from hw]
  exact h

theorem reads_noKey : Reads (acceptWord "key") [] (fun _ => True) EndsSetting :=
  reads_acceptWord_other.mono (fun _ _ => trivial) fun _ h => h.not_isWord

theorem reads_primaryKey {w : String} (hw : asciiLower w ∈ ["pk", "primary", "primary_key"]) {ts : List Terminal}
    (h : Reads (acceptWord "key") ts (fun _ => True) EndsSetting) :
    Reads setting (.word w :: ts) (· = .primaryKey) EndsSetting := by
  refine reads_setting rfl ?_
  simp only [List.mem_cons, List.not_mem_nil, or_false] at hw
  rcases hw with hw | hw | hw <;> rw [hw] <;> exact h.map fun _ _ => rfl

theorem settingAfter_unknown {k : String} (h : k ∉ settingWords) : settingAfter k = ignoredSetting := by
  unfold settingAfter
  split <;> first | rfl | exact absurd (by decide) h

theorem reads_unknown {w : String} (hw : asciiLower w ∉ settingWords) {ts : List Terminal}
    (h : Reads ignoredSetting ts (· = .ignored) EndsSetting) :
    Reads setting (.word w :: ts) (· = .ignored) EndsSetting := by
  refine reads_setting rfl ?_
  rw [settingAfter_unknown hw]
  exact h

/-- No colon behind the word. -/
theorem reads_noColon : Reads (accept .colon) [] (· = false) EndsSetting :=
  reads_accept_other.narrow fun _ h => h.ne (by decide) (by decide)

/-- The end of a setting, looked at and left. -/
theorem reads_ignored_end {r : Production SettingItem} :
    Reads (peek >>= fun t => if t.kind = .comma ∨ t.kind = .closeBracket then Pure.pure .ignored else r) []
      (· = .ignored) EndsSetting := by
  intro c t rest hc ht
  obtain ⟨tok, -, rfl, -, hpeek, -⟩ := terminals_eq_cons hc
  have hend : tok.kind = .comma ∨ tok.kind = .closeBracket := ht
  refine ⟨.ignored, c, ?_, rfl, hc⟩
  rw [peek_bind, hpeek, if_pos hend]
  rfl

end Production

theorem SettingItem.WrittenAs.reads {i : SettingItem} {ts : List Terminal} (h : i.WrittenAs ts) :
    Reads setting ts (· = i) EndsSetting := by
  cases h with
  | primaryKey hw => exact reads_primaryKey hw reads_noKey
  | primaryKeyWords hw hw' =>
    exact reads_primaryKey hw ((reads_acceptWord (kind_word_isWord _) hw').mono (fun _ _ => trivial) fun _ _ => trivial)
  | unique hw => exact reads_setting hw (Reads.pure rfl)
  | notNull hw =>
    simp only [List.mem_cons, List.not_mem_nil, or_false] at hw
    rcases hw with hw | hw <;> exact reads_setting hw (Reads.pure rfl)
  | notNullWords hw hw' =>
    refine reads_setting hw ((reads_acceptWord (kind_word_isWord _) hw').then leads_any ?_)
    rintro _ rfl
    exact Reads.pure rfl
  | nullable hw => exact reads_setting hw (Reads.pure rfl)
  | autoIncrement hw =>
    simp only [List.mem_cons, List.not_mem_nil, or_false] at hw
    rcases hw with hw | hw <;> exact reads_setting hw (Reads.pure rfl)
  | default hw hv =>
    refine reads_setting hw ((reads_accept rfl).then leads_any ?_)
    rintro _ rfl
    exact hv.reads.map_eq
  | note hw =>
    refine reads_setting hw ((reads_expect rfl).then leads_any fun _ _ => ?_)
    exact (reads_string _).ofAny.map_eq
  | @reference w type target hw =>
    refine reads_setting hw ((reads_expect rfl).then leads_any fun _ _ => ?_)
    refine type.reads.then leads_any ?_
    rintro _ rfl
    exact target.reads.ofAny.map_eq
  | noDefault hw =>
    refine reads_setting hw (reads_noColon.skip (leads_nil fun _ h => h) ?_)
    rintro _ rfl
    exact Reads.pure rfl
  | unknown hw =>
    refine reads_unknown hw (reads_noColon.skip (leads_nil fun _ h => h) ?_)
    rintro _ rfl
    exact Reads.pure rfl
  | unknownColon hw =>
    refine reads_unknown hw ((reads_accept rfl).then leads_any ?_)
    rintro _ rfl
    exact reads_ignored_end
  | @unknownValue w t hw ht =>
    refine reads_unknown hw ((reads_accept rfl).then leads_any ?_)
    rintro _ rfl
    refine Reads.peek fun tok htok => ?_
    rw [if_neg (by rw [Token.kind_eq htok]; exact ht)]
    exact reads_advance.then leads_any fun _ _ => Reads.pure rfl

/-! ## Sizes and brackets -/

namespace Production

theorem reads_sizeNumber {ds : List Char} {n : UInt32} (h : sizeOfText? (String.ofList ds) = some n) :
    Reads sizeNumber [.number ds] (· = n) Any := by
  refine (reads_expect rfl).then leads_any fun t ht => ?_
  have hv : t.value = String.ofList ds := congrArg Terminal.value ht
  rw [hv, h]
  exact Reads.pure rfl

/-- Items between brackets. -/
theorem reads_brackets {ι α β : Type} {item : Production α} {g : ι → List Terminal} {v : ι → α}
    {r : List α → β} {xs : List ι} (hx : ∀ x ∈ xs, Reads item (g x) (· = v x) EndsSetting) (hne : xs ≠ []) :
    Reads (accept .openBracket >>= fun b =>
        if b = true then
          commaList item >>= fun items => expect .closeBracket >>= fun _ => Pure.pure (r items)
        else Pure.pure (r []))
      (.mark '[' :: (commaTerminals g xs ++ [.mark ']'])) (· = r (xs.map v)) Any := by
  obtain ⟨x, xs, rfl⟩ := List.exists_cons_of_ne_nil hne
  refine (reads_accept rfl).then leads_any ?_
  rintro _ rfl
  have hlist : Reads (commaList item) (commaTerminals g (x :: xs)) (· = (x :: xs).map v)
      (· = .closeBracket) :=
    Reads.commaList hx (Or.inl rfl) fun k hk => ⟨Or.inr hk, by rw [hk]; decide⟩
  refine hlist.bind (leads_cons rfl) ?_
  rintro _ rfl
  exact reads_close rfl

end Production

theorem ColumnSize.WrittenAs.reads {size : Option ColumnSize} {ts : List Terminal} (h : WrittenAs size ts) :
    Reads sizePart ts (· = size) (· ≠ .openParen) := by
  have hpart {size : ColumnSize} {ts : List Terminal} (h : Reads Production.size ts (· = size) Any) :
      Reads sizePart (.mark '(' :: ts) (· = some size) (· ≠ .openParen) := by
    refine (reads_accept (k := .openParen) rfl).then leads_any ?_
    rintro _ rfl
    exact h.ofAny.map_eq
  cases h with
  | none =>
    refine reads_accept_other.skip (leads_nil fun _ h => h) ?_
    rintro _ rfl
    exact Reads.pure rfl
  | length hn =>
    refine hpart ((reads_sizeNumber hn).then leads_any ?_)
    rintro _ rfl
    refine reads_accept_other.skip (leads_cons (by decide)) ?_
    rintro _ rfl
    exact reads_close rfl
  | precision hp hq =>
    refine hpart ((reads_sizeNumber hp).then leads_any ?_)
    rintro _ rfl
    refine (reads_accept rfl).then leads_any ?_
    rintro _ rfl
    refine (reads_sizeNumber hq).then leads_any ?_
    rintro _ rfl
    exact reads_close rfl

end Erd
