import MonkeyLang.Source

namespace MonkeyLang

namespace Source

theorem layout_iff {c : Char} : isLayout c = true ↔ c ∈ [' ', '\t', '\n', '\r'] := by
  simp [isLayout, or_assoc]

theorem not_letter_of_layout {c : Char} (h : isLayout c = true) : isLetter c = false := by
  rw [layout_iff] at h
  simp only [List.mem_cons, List.not_mem_nil, or_false] at h
  rcases h with rfl | rfl | rfl | rfl <;> decide

theorem not_digit_of_layout {c : Char} (h : isLayout c = true) : c.isDigit = false := by
  rw [layout_iff] at h
  simp only [List.mem_cons, List.not_mem_nil, or_false] at h
  rcases h with rfl | rfl | rfl | rfl <;> decide

theorem not_layout_of_letter {c : Char} (h : isLetter c = true) : isLayout c = false := by
  refine Bool.eq_false_iff.mpr fun hl => ?_
  rw [not_letter_of_layout hl] at h
  cases h

theorem not_layout_of_digit {c : Char} (h : c.isDigit = true) : isLayout c = false := by
  refine Bool.eq_false_iff.mpr fun hl => ?_
  rw [not_digit_of_layout hl] at h
  cases h

theorem not_letter_of_digit {c : Char} (h : c.isDigit = true) : isLetter c = false := by
  have hc : c ≠ '_' := by
    rintro rfl
    exact absurd h (by decide)
  have hd : c.isAlpha = false := by
    delta Char.isDigit at h
    delta Char.isAlpha Char.isUpper Char.isLower
    simp only [ge_iff_le, Bool.and_eq_true, decide_eq_true_eq, Bool.or_eq_false_iff,
      Bool.and_eq_false_iff, decide_eq_false_iff_not, UInt32.le_iff_toNat_le] at h ⊢
    simp at h ⊢
    omega
  simp [isLetter, hc, hd]

theorem next_layout {c : Char} (h : isLayout c = true) (cs : Source) :
    next (c :: cs) = next cs := by
  unfold next
  rw [List.dropWhile_cons_of_pos h]

theorem tokens_layout {c : Char} (h : isLayout c = true) (cs : Source) :
    tokens (c :: cs) = tokens cs := by
  rw [tokens_eq, tokens_eq cs, next_layout h]

theorem tokens_blank (cs : Source) : tokens (' ' :: cs) = tokens cs := tokens_layout rfl cs

theorem next_solid {c : Char} (h : isLayout c = false) (cs : Source) :
    next (c :: cs) = token c cs := by
  unfold next
  rw [List.dropWhile_cons_of_neg (by simp [h])]

theorem tokens_of_next {cs rest : Source} {t : Token} (h : next cs = (t, rest)) (ht : t ≠ .eof) :
    tokens cs = t :: tokens rest := by
  rw [tokens_eq, h, if_neg ht]

def Off (p : Char → Bool) (rest : Source) : Prop := ∀ c ∈ rest.head?, p c = false

theorem takeWhile_run {p : Char → Bool} {w rest : Source} (hw : ∀ c ∈ w, p c = true)
    (hr : Off p rest) : (w ++ rest).takeWhile p = w := by
  rw [List.takeWhile_append_of_pos hw]
  cases rest with
  | nil => simp
  | cons c cs => simp [hr c rfl]

theorem dropWhile_run {p : Char → Bool} {w rest : Source} (hw : ∀ c ∈ w, p c = true)
    (hr : Off p rest) : (w ++ rest).dropWhile p = rest := by
  rw [List.dropWhile_append_of_pos hw]
  cases rest with
  | nil => rfl
  | cons c cs => rw [List.dropWhile_cons_of_neg (by simp [hr c rfl])]

theorem next_word {w rest : Source} (hn : w ≠ []) (hw : ∀ c ∈ w, isLetter c = true)
    (hr : Off isLetter rest) : next (w ++ rest) = (.ofWord (String.ofList w), rest) := by
  obtain ⟨c, cs, rfl⟩ := List.exists_cons_of_ne_nil hn
  have hc : isLetter c = true := hw c (List.mem_cons_self ..)
  have hcs : ∀ d ∈ cs, isLetter d = true := fun d hd => hw d (List.mem_cons_of_mem _ hd)
  have hq : c ≠ '"' := by
    rintro rfl
    exact absurd hc (by decide)
  rw [List.cons_append, next_solid (not_layout_of_letter hc), token, if_neg hq, if_pos hc,
    takeWhile_run hcs hr, dropWhile_run hcs hr]

theorem next_digits {w rest : Source} (hn : w ≠ []) (hw : ∀ c ∈ w, c.isDigit = true)
    (hr : Off Char.isDigit rest) : next (w ++ rest) = (.int (String.ofList w), rest) := by
  obtain ⟨c, cs, rfl⟩ := List.exists_cons_of_ne_nil hn
  have hc : c.isDigit = true := hw c (List.mem_cons_self ..)
  have hcs : ∀ d ∈ cs, d.isDigit = true := fun d hd => hw d (List.mem_cons_of_mem _ hd)
  have hq : c ≠ '"' := by
    rintro rfl
    exact absurd hc (by decide)
  have hnl : isLetter c ≠ true := by simp [not_letter_of_digit hc]
  rw [List.cons_append, next_solid (not_layout_of_digit hc), token, if_neg hq, if_neg hnl,
    if_pos hc, takeWhile_run hcs hr, dropWhile_run hcs hr]

theorem next_string {w rest : Source} (hw : '"' ∉ w) :
    next ('"' :: w ++ '"' :: rest) = (.string (String.ofList w), rest) := by
  have hp : ∀ c ∈ w, decide (c ≠ '"') = true := fun c hc =>
    decide_eq_true fun h => hw (h ▸ hc)
  have hr : Off (fun c => decide (c ≠ '"')) ('"' :: rest) := by
    rintro c ⟨⟩
    rfl
  rw [List.cons_append, next_solid rfl, token, if_pos rfl, takeWhile_run hp hr, dropWhile_run hp hr]
  rfl

theorem symbol?_single {c d : Char} (h : d ≠ '=') (cs : Source) :
    symbol? (c :: d :: cs) = (Symbol.ofChar? c).map (·, d :: cs) := by
  unfold symbol?
  split
  · contradiction
  · rename_i heq
    cases heq
    exact absurd rfl h
  · rename_i heq
    cases heq
    exact absurd rfl h
  · rename_i heq
    cases heq
    rfl

/-- A symbol that is the beginning of a longer one is read alone only when the rest does not go on
with it. -/
theorem next_symbol {s : Symbol} {rest : Source}
    (hs : s = .assign ∨ s = .bang → Off (fun c => decide (c = '=')) rest) :
    next (s.text.toList ++ rest) = (.symbol s, rest) := by
  cases s with
  | assign | bang =>
    cases rest with
    | nil => rfl
    | cons c cs =>
      have hc : c ≠ '=' := of_decide_eq_false (hs (by simp) c rfl)
      change token _ (c :: cs) = _
      rw [token, symbol?_single hc]
      rfl
  | _ => rfl

theorem ofWord_keyword (k : Keyword) : Token.ofWord k.text = .keyword k := by
  rw [Token.ofWord, Keyword.ofText?_text]

theorem next_keyword (k : Keyword) {rest : Source} (hr : Off isLetter rest) :
    next (k.text.toList ++ rest) = (.keyword k, rest) := by
  have hw : ∀ c ∈ k.text.toList, isLetter c = true :=
    List.all_eq_true.mp (by cases k <;> decide)
  have hn : k.text.toList ≠ [] := by cases k <;> decide
  rw [next_word hn hw hr, String.ofList_toList, ofWord_keyword]

theorem token_ne_eof (c : Char) (cs : Source) : (token c cs).1 ≠ .eof := by
  unfold token
  split
  · simp
  · split
    · unfold Token.ofWord
      split <;> simp
    · split
      · simp
      · split <;> simp

theorem rest_of_next_eof {cs : Source} (h : (next cs).1 = .eof) : (next cs).2 = [] := by
  unfold next at h ⊢
  split at h
  · rfl
  · exact absurd h (token_ne_eof _ _)

theorem tokens_nil : tokens [] = [] := by
  rw [tokens_eq, next_nil, if_pos rfl]

theorem next_of_tokens_nil {cs : Source} (h : cs.tokens = []) : (next cs).1 = .eof := by
  rw [tokens_eq] at h
  split at h
  · assumption
  · cases h

theorem tokens_length_le (cs : Source) : cs.tokens.length ≤ cs.length := by
  rw [tokens_eq]
  split
  · exact Nat.zero_le _
  · rename_i h
    have hl := next_length h
    have ih := tokens_length_le (next cs).2
    rw [List.length_cons]
    omega
termination_by cs.length
decreasing_by exact hl

theorem takeWhile_append_of_stops {p : Char → Bool} {cs : Source} (h : cs.dropWhile p ≠ [])
    (b : Source) : (cs ++ b).takeWhile p = cs.takeWhile p := by
  induction cs with
  | nil => exact absurd rfl h
  | cons c cs ih =>
    cases hc : p c with
    | true =>
      rw [List.dropWhile_cons_of_pos hc] at h
      rw [List.cons_append, List.takeWhile_cons_of_pos hc, List.takeWhile_cons_of_pos hc, ih h]
    | false => simp [hc]

theorem dropWhile_append_of_stops {p : Char → Bool} {cs : Source} (h : cs.dropWhile p ≠ [])
    (b : Source) : (cs ++ b).dropWhile p = cs.dropWhile p ++ b := by
  rw [List.dropWhile_append, if_neg (by simpa using h)]

theorem symbol?_alone {c : Char} (he : c ≠ '=') (hb : c ≠ '!') (cs : Source) :
    symbol? (c :: cs) = (Symbol.ofChar? c).map (·, cs) := by
  unfold symbol?
  split
  · contradiction
  · rename_i heq
    cases heq
    exact absurd rfl he
  · rename_i heq
    cases heq
    exact absurd rfl hb
  · rename_i heq
    cases heq
    rfl

theorem text_of_ofChar? {c : Char} {s : Symbol} (h : Symbol.ofChar? c = some s) :
    s.text.toList = [c] := by
  unfold Symbol.ofChar? at h
  split at h <;> cases h <;> rfl

theorem not_symbol {c : Char} {t : Symbol} (h : Symbol.ofChar? c = some t) :
    c ≠ '"' ∧ isLetter c = false ∧ c.isDigit = false := by
  unfold Symbol.ofChar? at h
  split at h <;> first | decide | cases h

/-- What starts another token is no symbol. -/
theorem symbol?_eq_none {c : Char} (h : c = '"' ∨ isLetter c = true ∨ c.isDigit = true)
    (cs : Source) : symbol? (c :: cs) = none := by
  have hn : Symbol.ofChar? c = none := by
    cases hc : Symbol.ofChar? c with
    | none => rfl
    | some t =>
      have ht := not_symbol hc
      simp [ht] at h
  have he : c ≠ '=' := by rintro rfl; cases hn
  have hb : c ≠ '!' := by rintro rfl; cases hn
  rw [symbol?_alone he hb, hn]
  rfl

/-- The symbols that begin with one character. The longer one goes on with an equals sign. -/
inductive Pair : Char → Symbol → Symbol → Prop
  | equals : Pair '=' .eq .assign
  | bang : Pair '!' .notEq .bang

theorem symbol?_pair {c : Char} {long short : Symbol} (h : Pair c long short) (cs : Source) :
    symbol? (c :: cs) =
      some (if cs.head? = some '=' then (long, cs.tail) else (short, cs)) := by
  cases cs with
  | nil => cases h <;> rfl
  | cons d ds =>
    by_cases hd : d = '='
    · subst hd
      cases h <;> rfl
    · rw [symbol?_single hd, if_neg (by simp [hd])]
      cases h <;> rfl

theorem pair_or (c : Char) : (∃ long short, Pair c long short) ∨ c ≠ '=' ∧ c ≠ '!' := by
  by_cases he : c = '='
  · subst he
    exact .inl ⟨_, _, Pair.equals⟩
  · by_cases hb : c = '!'
    · subst hb
      exact .inl ⟨_, _, Pair.bang⟩
    · exact .inr ⟨he, hb⟩

theorem symbol?_append (c d : Char) (cs b : Source) :
    symbol? (c :: d :: (cs ++ b)) = (symbol? (c :: d :: cs)).map fun r => (r.1, r.2 ++ b) := by
  by_cases hd : d = '='
  · subst hd
    by_cases he : c = '='
    · subst he
      rfl
    · by_cases hb : c = '!'
      · subst hb
        rfl
      · rw [symbol?_alone he hb, symbol?_alone he hb, Option.map_map]
        rfl
  · rw [symbol?_single hd, symbol?_single hd, Option.map_map]
    rfl

theorem token_append {c : Char} {cs : Source} (h : (token c cs).2 ≠ []) (b : Source) :
    token c (cs ++ b) = ((token c cs).1, (token c cs).2 ++ b) := by
  -- One character after the token is enough to see where it ends.
  have hcs : cs ≠ [] := by
    rintro rfl
    exact h (List.eq_nil_of_length_eq_zero (Nat.le_zero.mp (token_length c [])))
  unfold token at h ⊢
  by_cases hq : c = '"'
  · rw [if_pos hq] at h
    have hs : cs.dropWhile (· ≠ '"') ≠ [] := fun he => h (by rw [he]; rfl)
    obtain ⟨d, ds, hd⟩ := List.exists_cons_of_ne_nil hs
    rw [if_pos hq, if_pos hq, takeWhile_append_of_stops hs, dropWhile_append_of_stops hs, hd]
    rfl
  · rw [if_neg hq] at h
    rw [if_neg hq, if_neg hq]
    by_cases hl : isLetter c = true
    · rw [if_pos hl] at h
      rw [if_pos hl, if_pos hl, takeWhile_append_of_stops h, dropWhile_append_of_stops h]
    · rw [if_neg hl] at h
      rw [if_neg hl, if_neg hl]
      by_cases hd : c.isDigit = true
      · rw [if_pos hd] at h
        rw [if_pos hd, if_pos hd, takeWhile_append_of_stops h, dropWhile_append_of_stops h]
      · rw [if_neg hd] at h
        rw [if_neg hd, if_neg hd]
        obtain ⟨d, cs, rfl⟩ := List.exists_cons_of_ne_nil hcs
        rw [List.cons_append, symbol?_append]
        cases symbol? (c :: d :: cs) <;> rfl

theorem next_append {a : Source} (h : (next a).2 ≠ []) (b : Source) :
    next (a ++ b) = ((next a).1, (next a).2 ++ b) := by
  unfold next at h ⊢
  cases ha : a.dropWhile isLayout with
  | nil =>
    rw [ha] at h
    exact absurd rfl h
  | cons c cs =>
    rw [ha] at h
    rw [dropWhile_append_of_stops (by simp [ha]), ha]
    exact token_append h b

theorem token_semicolon {c : Char} {cs : Source} (h : (token c cs).1 = .symbol .semicolon) :
    c = ';' := by
  unfold token at h
  split at h
  · cases h
  · split at h
    · unfold Token.ofWord at h
      split at h <;> cases h
    · split at h
      · cases h
      · split at h
        · rename_i s rest hs
          cases h
          unfold symbol? at hs
          split at hs
          · cases hs
          · cases hs
          · cases hs
          · rename_i heq
            cases heq
            obtain ⟨s, hs, he⟩ := Option.map_eq_some_iff.mp hs
            cases he
            unfold Symbol.ofChar? at hs
            split at hs <;> first | rfl | cases hs
        · cases h

/-- No text makes a semicolon the beginning of another token. -/
theorem next_append_semicolon {a : Source} (h : (next a).1 = .symbol .semicolon) (b : Source) :
    next (a ++ b) = (.symbol .semicolon, (next a).2 ++ b) := by
  unfold next at h ⊢
  cases ha : a.dropWhile isLayout with
  | nil =>
    rw [ha] at h
    cases h
  | cons c cs =>
    rw [ha] at h
    obtain rfl := token_semicolon h
    rw [dropWhile_append_of_stops (by simp [ha]), ha]
    rfl

theorem tokens_append_of_layout {a : Source} (h : a.tokens = []) (b : Source) :
    (a ++ b).tokens = b.tokens := by
  have ha : a.dropWhile isLayout = [] := by
    have hn := next_of_tokens_nil h
    unfold next at hn
    split at hn
    · assumption
    · exact absurd hn (token_ne_eof _ _)
  have hn : next (a ++ b) = next b := by
    rw [next, List.dropWhile_append, ha]
    rfl
  rw [tokens_eq, hn, ← tokens_eq]

/-- A text that closes with a semicolon shares no token with what comes after it. -/
theorem tokens_append {a : Source} (h : a.tokens.getLast? = some (.symbol .semicolon))
    (b : Source) : (a ++ b).tokens = a.tokens ++ b.tokens := by
  have ht : (next a).1 ≠ .eof := by
    intro he
    rw [tokens_eq, if_pos he] at h
    cases h
  rw [tokens_eq, if_neg ht] at h
  by_cases hr : (next a).2.tokens = []
  · have hs : (next a).1 = .symbol .semicolon := by
      rw [hr] at h
      exact Option.some.inj h
    have hn := next_append_semicolon hs b
    rw [tokens_of_next hn (by simp), tokens_append_of_layout hr, tokens_eq a, if_neg ht, hr, hs]
    rfl
  · have hrest : (next a).2 ≠ [] := fun he => hr (by rw [he, tokens_nil])
    have hlast : (next a).2.tokens.getLast? = some (.symbol .semicolon) := by
      obtain ⟨t, ts, ht⟩ := List.exists_cons_of_ne_nil hr
      rw [ht] at h ⊢
      exact h
    have hlt := next_length ht
    rw [tokens_of_next (next_append hrest b) ht, tokens_append hlast b, tokens_eq a, if_neg ht]
    rfl
termination_by a.length
decreasing_by exact hlt

end Source

end MonkeyLang
