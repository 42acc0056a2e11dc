import Erd.Proofs.Grammar.Image
import Erd.Proofs.Grammar.Predictive

/-!
# The first error

An error is about the first token at which the source cannot be continued.  Its position and value are
those of that token, the tokens before it can be continued to a schema, and no token but the next one
behind it has a say.

    parse s = .error e → ∃ k, FirstError s k e                                        (exists_firstError)
-/

namespace Erd

/-! ## Tokens of a source -/

/-- A source that has all tokens of another in front has no more. -/
theorem tokenize_eq_of_take {s s' : String} {n : Nat} (hn : (tokenize s).length ≤ n)
    (h : (tokenize s').take n = (tokenize s).take n) : tokenize s' = tokenize s := by
  obtain ⟨ts, p, hts, -⟩ := tokenize_eq_append s
  obtain ⟨ts', p', hts', hend⟩ := tokenize_eq_append s'
  rw [List.take_of_length_le hn] at h
  have hlen : (tokenize s').length ≤ n := by
    by_contra hlt
    -- the end of the first source would stand before the end of the second
    rw [hts', List.length_append, List.length_singleton] at hlt
    rw [hts, hts', List.take_append_of_le_length (by omega)] at h
    have hmem : Token.endAt p ∈ ts'.take n := by
      rw [h]
      simp
    exact hend _ (List.mem_of_mem_take hmem) rfl
  rwa [List.take_of_length_le hlen] at h

/-- The cursor over a source gives its tokens, and past the end the end again. -/
theorem getElem?_tokenize {s : String} {ts : List Token} {position : Position}
    (h : tokenize s = ts ++ [.endAt position]) (n : Nat) :
    (tokenize s)[min n ts.length]? = some ((Cursor.ofTokens (tokenize s)).skip n).peek := by
  have hrest : (Cursor.ofTokens (tokenize s)).rest = ts ++ [.endAt position] := h
  have hbeyond : (Cursor.ofTokens (tokenize s)).beyond = .endAt position := by
    rw [Cursor.ofTokens, h, List.getLast?_concat]
    rfl
  rw [Cursor.peek_skip, hbeyond, hrest, h]
  rcases Nat.lt_trichotomy n ts.length with hn | rfl | hn
  · rw [Nat.min_eq_left hn.le]
    simp [List.getElem?_append_left hn, hn]
  · simp
  · rw [Nat.min_eq_right hn.le]
    simp [List.getElem?_eq_none (l := ts ++ [Token.endAt position]) (i := n) (by simp; omega)]

/-- Lists with the same first tokens give the same ones ahead. -/
theorem Cursor.ofTokens_agree {ts us : List Token} {n : Nat} (hn : n ≤ ts.length)
    (h : us.take n = ts.take n) :
    (ofTokens us).ahead n = (ofTokens ts).ahead n ∧
      ∀ m < n, ((ofTokens us).skip m).peek = ((ofTokens ts).skip m).peek := by
  have hn' : n ≤ us.length := by
    have := congrArg List.length h
    simp only [List.length_take] at this
    omega
  refine ⟨?_, fun m hm => ?_⟩
  · rw [ahead_eq_take hn', ahead_eq_take hn]
    exact congrArg _ h
  · have hget : us[m]? = ts[m]? := by
      rw [← List.getElem?_take_of_lt hm, h, List.getElem?_take_of_lt hm]
    rw [peek_skip, peek_skip, List.getD_eq_getElem?_getD, List.getD_eq_getElem?_getD]
    show us[m]?.getD _ = ts[m]?.getD _
    rw [hget, List.getElem?_eq_getElem (show m < ts.length by omega), Option.getD_some, Option.getD_some]

namespace Terminal

/-- A token of this terminal. -/
def token (t : Terminal) : Token := ⟨t.kind, t.value, .start⟩

theorem map_terminal_token (us : List Terminal) : (us.map token).map Token.terminal = us := by
  rw [List.map_map]
  exact List.map_id us

end Terminal

namespace Schema

open Cursor Production

theorem ofTokens_eq {ts : List Token} {s : Schema} {c : Cursor} (h : document (.ofTokens ts) = .ok s c) :
    ofTokens ts = .ok s := by
  unfold ofTokens
  rw [h]

/-- The error of a source is about its token `k`. -/
structure FirstError (s : String) (k : Nat) (e : SyntaxError) : Prop where
  /-- Position and value are those of the token, and the end of the source has no value. -/
  token : ∃ t, (tokenize s)[k]? = some t ∧ e.line = t.start.line ∧ e.column = t.start.column ∧
    (e.value? = none ↔ t.kind = .endOfInput) ∧ ∀ v ∈ e.value?, v = t.value
  /-- The tokens before it can be continued to a schema. -/
  viable : ∃ w schema, ofTokens ((tokenize s).take k ++ w) = .ok schema
  /-- Sources with the same tokens up to the one behind it have the same error. -/
  decided : ∀ s', (tokenize s').take (k + 2) = (tokenize s).take (k + 2) → parse s' = .error e

/-- Terminals that are read to a schema can be put behind the first tokens of a list. -/
theorem exists_ofTokens {ts : List Token} {n k : Nat} {us : List Terminal} {schema : Schema}
    (hk : k ≤ ts.length) (hkn : k ≤ n)
    (h : Passes document ((Cursor.ofTokens ts).ahead n ++ us) schema fun u => u.kind = .endOfInput) :
    ∃ w, ofTokens (ts.take k ++ w) = .ok schema := by
  obtain ⟨m, rfl⟩ := Nat.exists_eq_add_of_le hkn
  refine ⟨(((Cursor.ofTokens ts).skip k).ahead m ++ us).map Terminal.token, ?_⟩
  rw [ahead_add, ahead_eq_take (show k ≤ (Cursor.ofTokens ts).rest.length from hk), List.append_assoc] at h
  obtain ⟨e, hpeek⟩ := ahead_terminals (c := .ofTokens (ts.take k ++ _))
    ((List.map_append ..).trans (congrArg (_ ++ ·) (Terminal.map_terminal_token _)))
  exact ofTokens_eq (h _ (closed_ofTokens _) e (congrArg (fun t : Token => t.kind) hpeek))

theorem exists_firstError {s : String} {e : SyntaxError} (h : parse s = .error e) :
    ∃ k, FirstError s k e := by
  obtain ⟨c', hrun⟩ := parse_eq_error.1 h
  obtain ⟨n, htok, hfails, hviable⟩ :=
    (predictive_document.run _ (closed_ofTokens _)).of_error (closed_ofTokens _) hrun
  obtain ⟨ts, position, hts, -⟩ := tokenize_eq_append s
  have hlen : (tokenize s).length = ts.length + 1 := by simp [hts]
  refine ⟨min n ts.length, ⟨e.token, ?_, rfl, rfl, ?_, ?_⟩, ?_, fun s' hs' => ?_⟩
  · rw [htok]
    exact getElem?_tokenize hts n
  · simp [SyntaxError.value?]
  · simp [SyntaxError.value?]
  · rcases Nat.eq_zero_or_pos n with rfl | hn
    · rw [Nat.zero_min]
      exact ⟨[], _, rfl⟩
    · obtain ⟨us, schema, hpass⟩ := hviable hn
      obtain ⟨w, hw⟩ := exists_ofTokens (k := min n ts.length) (by omega) (Nat.min_le_left _ _) hpass
      exact ⟨w, schema, hw⟩
  · rcases Nat.lt_or_ge n ts.length with hn | hn
    · rw [Nat.min_eq_left hn.le] at hs'
      obtain ⟨hahead, hpeek⟩ := ofTokens_agree (by omega) hs'
      obtain ⟨d', hd'⟩ := hfails _ (closed_ofTokens _) hahead
      rw [hpeek n (by omega), ← htok] at hd'
      exact parse_eq_error.2 ⟨d', hd'⟩
    · -- the error is at the end, and so all tokens are given
      rw [Nat.min_eq_right hn] at hs'
      rw [parse, tokenize_eq_of_take (by omega) hs']
      exact h

/-- A setting that means nothing takes any token behind its colon, even the end. -/
theorem firstError_swallowed_end :
    parse "Table t \x7b a b [c:" = .error ⟨.expected (.kind .closeBracket), .endAt ⟨1, 18⟩⟩ ∧
      ∃ k, FirstError "Table t \x7b a b [c:" k ⟨.expected (.kind .closeBracket), .endAt ⟨1, 18⟩⟩ := by
  have h : parse "Table t \x7b a b [c:" = .error ⟨.expected (.kind .closeBracket), .endAt ⟨1, 18⟩⟩ := by decide +kernel
  exact ⟨h, exists_firstError h⟩

end Schema

end Erd
