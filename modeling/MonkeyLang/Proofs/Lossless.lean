import Mathlib.Data.List.TakeWhile
import MonkeyLang.Proofs.Lexing.Scanning

namespace MonkeyLang

open Source (isLayout isLetter Off)

/-- How a token stands in a text that goes on with `after`. -/
inductive Token.Spelled (after : Source) : Token → Source → Prop where
  | quoted (text : String) : Spelled after (.string text) ('"' :: text.toList ++ ['"'])
  | unclosed (text : String) (h : after = []) : Spelled after (.string text) ('"' :: text.toList)
  | plain {t : Token} (h : t.kind ≠ .string) : Spelled after t t.literal.toList

/-- A run of such characters goes no further to either side. -/
structure Source.Bounded (p : Char → Bool) (before after : Source) : Prop where
  left : Off p before.reverse
  right : Off p after

/-- Begins no other token, and is not layout. -/
structure Source.Stray (c : Char) : Prop where
  layout : isLayout c = false
  letter : isLetter c = false
  digit : c.isDigit = false
  quote : c ≠ '"'
  symbol (s : Symbol) : s.text.toList.head? ≠ some c

/-- What stands between `before` and `after` is one token of its kind, and all of it. -/
def Token.Whole (before after : Source) : Token → Prop
  | .illegal c => Source.Stray c
  | .eof => False
  | .ident name => name ≠ "" ∧ (∀ c ∈ name.toList, isLetter c = true) ∧
      Source.Bounded isLetter before after ∧ ∀ k : Keyword, k.text ≠ name
  | .int digits => digits ≠ "" ∧ (∀ c ∈ digits.toList, c.isDigit = true) ∧
      Source.Bounded Char.isDigit before after
  | .string text => '"' ∉ text.toList
  | .symbol s => s = .assign ∨ s = .bang → after.head? ≠ some '='
  | .keyword _ => Source.Bounded isLetter before after

/-- The text that follows `before` is made of these tokens, with layout between them. -/
inductive Laid : Source → Source → List Token → Prop where
  | nil {before gap : Source} (hg : ∀ c ∈ gap, isLayout c = true) : Laid before gap []
  | cons {before gap form after : Source} {t : Token} {ts : List Token}
      (hg : ∀ c ∈ gap, isLayout c = true) (hs : t.Spelled after form)
      (hw : t.Whole (before ++ gap) after) (h : Laid (before ++ gap ++ form) after ts) :
      Laid before (gap ++ form ++ after) (t :: ts)

theorem Symbol.ofChar?_of_head {c : Char} {s : Symbol} (h : s.text.toList.head? = some c) :
    ofChar? c ≠ none := by
  cases s <;> cases h <;> exact Option.some_ne_none _

namespace Source

theorem tokens_layout_append {gap : Source} (hg : ∀ c ∈ gap, isLayout c = true) (cs : Source) :
    tokens (gap ++ cs) = tokens cs := by
  induction gap with
  | nil => rfl
  | cons c gap ih =>
    rw [List.cons_append, tokens_layout (hg c (List.mem_cons_self ..)),
      ih fun d hd => hg d (List.mem_cons_of_mem _ hd)]

theorem off_nil (p : Char → Bool) : Off p [] := by
  rintro c ⟨⟩

theorem off_eq {d : Char} {cs : Source} (h : cs.head? ≠ some d) :
    Off (fun c => decide (c = d)) cs := fun c hc =>
  decide_eq_false fun he => h (by rw [← he]; exact hc)

theorem next_unclosed {w : Source} (hw : '"' ∉ w) :
    next ('"' :: w) = (.string (String.ofList w), []) := by
  have hp : ∀ c ∈ w, decide (c ≠ '"') = true := fun c hc =>
    decide_eq_true fun h => hw (h ▸ hc)
  have ht := takeWhile_run hp (off_nil _)
  have hd := dropWhile_run hp (off_nil _)
  rw [List.append_nil] at ht hd
  rw [next_solid rfl, token, if_pos rfl, ht, hd]
  rfl

theorem Stray.ofChar? {c : Char} (h : Stray c) : Symbol.ofChar? c = none := by
  cases hc : Symbol.ofChar? c with
  | none => rfl
  | some s => exact absurd (by rw [text_of_ofChar? hc]; rfl) (h.symbol s)

theorem next_stray {c : Char} (h : Stray c) (cs : Source) : next (c :: cs) = (.illegal c, cs) := by
  have he : c ≠ '=' := fun hc => h.symbol .assign (by rw [hc]; rfl)
  have hb : c ≠ '!' := fun hc => h.symbol .bang (by rw [hc]; rfl)
  rw [next_solid h.layout, token, if_neg h.quote, if_neg (Bool.eq_false_iff.mp h.letter),
    if_neg (Bool.eq_false_iff.mp h.digit), symbol?_alone he hb, h.ofChar?]
  rfl

end Source

namespace Token

theorem ofWord_name {name : String} (h : ∀ k : Keyword, k.text ≠ name) :
    ofWord name = .ident name := by
  have hn : Keyword.ofText? name = none := by
    cases hk : Keyword.ofText? name with
    | none => rfl
    | some k => exact absurd (Keyword.text_of_ofText? hk) (h k)
  rw [ofWord, hn]

theorem next_spelled {t : Token} {before after form : Source} (hs : t.Spelled after form)
    (hw : t.Whole before after) : Source.next (form ++ after) = (t, after) := by
  cases hs with
  | quoted text =>
    have hn : Source.next ('"' :: text.toList ++ '"' :: after) = _ := Source.next_string hw
    rw [String.ofList_toList] at hn
    simpa using hn
  | unclosed text ha =>
    have hn := Source.next_unclosed hw
    rw [String.ofList_toList] at hn
    rw [ha, List.append_nil, hn]
  | plain hk =>
    cases t with
    | illegal c =>
      rw [literal, Char.toString, String.toList_singleton]
      exact Source.next_stray hw after
    | eof => exact hw.elim
    | ident name =>
      obtain ⟨hne, hl, hb, hk⟩ := hw
      have hn := Source.next_word (by simpa using hne) hl hb.right
      rw [String.ofList_toList, ofWord_name hk] at hn
      exact hn
    | int digits =>
      obtain ⟨hne, hd, hb⟩ := hw
      have hn := Source.next_digits (by simpa using hne) hd hb.right
      rw [String.ofList_toList] at hn
      exact hn
    | string text => exact absurd rfl hk
    | symbol s => exact Source.next_symbol fun h => Source.off_eq (hw h)
    | keyword k => exact Source.next_keyword k hw.right

end Token

theorem Laid.ne_eof {before cs : Source} {ts : List Token} (h : Laid before cs ts) :
    ∀ t ∈ ts, t ≠ .eof := by
  induction h with
  | nil => exact fun t ht => absurd ht List.not_mem_nil
  | cons _ _ hw _ ih =>
    intro t ht
    rcases List.mem_cons.mp ht with rfl | ht
    · rintro rfl
      exact hw
    · exact ih t ht

theorem Laid.tokens {before cs : Source} {ts : List Token} (h : Laid before cs ts) :
    ts = cs.tokens := by
  induction h with
  | nil hg =>
    have ht := Source.tokens_layout_append hg []
    rw [List.append_nil, Source.tokens_nil] at ht
    exact ht.symm
  | @cons before gap form after t ts hg hs hw _ ih =>
    have ht : t ≠ .eof := by
      rintro rfl
      exact hw
    rw [List.append_assoc, Source.tokens_layout_append hg,
      Source.tokens_of_next (Token.next_spelled hs hw) ht, ih]

namespace Source

theorem symbol?_some {c : Char} {cs rest : Source} {s : Symbol}
    (h : symbol? (c :: cs) = some (s, rest)) :
    c :: cs = s.text.toList ++ rest ∧ (s = .assign ∨ s = .bang → rest.head? ≠ some '=') := by
  rcases pair_or c with ⟨long, short, hp⟩ | ⟨he, hb⟩
  · rw [symbol?_pair hp] at h
    split at h
    · rename_i hd
      cases h
      obtain ⟨ds, rfl⟩ := List.head?_eq_some_iff.mp hd
      cases hp <;> exact ⟨rfl, by simp⟩
    · cases h
      refine ⟨?_, fun _ => ‹_›⟩
      cases hp <;> rfl
  · rw [symbol?_alone he hb] at h
    obtain ⟨s, hs, hx⟩ := Option.map_eq_some_iff.mp h
    cases hx
    have ht := text_of_ofChar? hs
    refine ⟨by rw [ht]; rfl, ?_⟩
    rintro (rfl | rfl)
    · cases ht
      exact absurd rfl he
    · cases ht
      exact absurd rfl hb

theorem ofChar?_of_symbol? {c : Char} {cs : Source} (h : symbol? (c :: cs) = none) :
    Symbol.ofChar? c = none := by
  rcases pair_or c with ⟨long, short, hp⟩ | ⟨he, hb⟩
  · rw [symbol?_pair hp] at h
    cases h
  · rw [symbol?_alone he hb] at h
    exact Option.map_eq_none_iff.mp h

end Source

/-- No run of letters and no run of digits goes on from one text to the other. -/
structure Source.Separated (before after : Source) : Prop where
  letters : Off isLetter before.reverse ∨ Off isLetter after
  digits : Off Char.isDigit before.reverse ∨ Off Char.isDigit after

namespace Source

theorem off_reverse {p : Char → Bool} {w : Source} (hn : w ≠ []) (hw : ∀ c ∈ w, p c = false)
    (before : Source) : Off p (before ++ w).reverse := by
  obtain ⟨c, cs, hc⟩ := List.exists_cons_of_ne_nil (List.reverse_ne_nil_iff.mpr hn)
  have hm : c ∈ w := List.mem_reverse.mp (hc ▸ List.mem_cons_self ..)
  rw [List.reverse_append, hc]
  rintro d ⟨⟩
  exact hw c hm

theorem off_dropWhile (p : Char → Bool) (cs : Source) : Off p (cs.dropWhile p) := by
  intro c hc
  have h := List.head?_dropWhile_not p cs
  rw [Option.mem_def.mp hc] at h
  exact h

theorem not_digit_of_letter {c : Char} (h : isLetter c = true) : c.isDigit = false := by
  refine Bool.eq_false_iff.mpr fun hd => ?_
  rw [not_letter_of_digit hd] at h
  cases h

theorem Separated.gap {before gap after : Source} (h : Separated before (gap ++ after))
    (hg : ∀ c ∈ gap, isLayout c = true) : Separated (before ++ gap) after := by
  cases gap with
  | nil => rwa [List.append_nil]
  | cons c cs =>
    have hn : c :: cs ≠ [] := List.cons_ne_nil c cs
    exact ⟨.inl (off_reverse hn (fun d hd => not_letter_of_layout (hg d hd)) before),
      .inl (off_reverse hn (fun d hd => not_digit_of_layout (hg d hd)) before)⟩

theorem separated_nil (before : Source) : Separated before [] :=
  ⟨.inr (off_nil _), .inr (off_nil _)⟩

theorem separated_of_other {w : Source} (hn : w ≠ [])
    (hw : ∀ c ∈ w, isLetter c = false ∧ c.isDigit = false) (before after : Source) :
    Separated (before ++ w) after :=
  ⟨.inl (off_reverse hn (fun c hc => (hw c hc).1) before),
    .inl (off_reverse hn (fun c hc => (hw c hc).2) before)⟩

end Source

namespace Token

/-- What is between `before` and `after` is this token, and the text may go on with another. -/
structure Stands (before form after : Source) (t : Token) : Prop where
  spelled : t.Spelled after form
  whole : t.Whole before after
  separated : Source.Separated (before ++ form) after

theorem spelled_word (w after : Source) :
    (ofWord (String.ofList w)).Spelled after w := by
  have hk : (ofWord (String.ofList w)).kind ≠ .string := by
    unfold ofWord
    split <;> exact Kind.noConfusion
  have hs : (ofWord (String.ofList w)).Spelled after _ := .plain hk
  rwa [literal_ofWord, String.toList_ofList] at hs

theorem whole_word {before w after : Source} (hn : w ≠ []) (hw : ∀ c ∈ w, isLetter c = true)
    (hb : Source.Bounded isLetter before after) :
    (ofWord (String.ofList w)).Whole before after := by
  unfold ofWord
  split
  · exact hb
  · rename_i hk
    refine ⟨by simpa using hn, by simpa using hw, hb, fun k hkw => ?_⟩
    rw [← hkw, Keyword.ofText?_text] at hk
    cases hk

theorem stands_word {before w after : Source} (hn : w ≠ []) (hw : ∀ c ∈ w, isLetter c = true)
    (hb : Off isLetter before.reverse) (ha : Off isLetter after) :
    Stands before w after (.ofWord (String.ofList w)) where
  spelled := spelled_word w after
  whole := whole_word hn hw ⟨hb, ha⟩
  separated := ⟨.inr ha,
    .inl (Source.off_reverse hn (fun c hc => Source.not_digit_of_letter (hw c hc)) before)⟩

theorem stands_digits {before w after : Source} (hn : w ≠ []) (hw : ∀ c ∈ w, c.isDigit = true)
    (hb : Off Char.isDigit before.reverse) (ha : Off Char.isDigit after) :
    Stands before w after (.int (String.ofList w)) where
  spelled := by
    have hs : (int (String.ofList w)).Spelled after _ := .plain Kind.noConfusion
    rwa [literal, String.toList_ofList] at hs
  whole := ⟨by simpa using hn, by simpa using hw, hb, ha⟩
  separated := ⟨.inl (Source.off_reverse hn (fun c hc => Source.not_letter_of_digit (hw c hc)) before),
    .inr ha⟩

theorem stands_quoted {w : Source} (hw : '"' ∉ w) (before after : Source) :
    Stands before ('"' :: w ++ ['"']) after (.string (String.ofList w)) where
  spelled := by
    have hs : (string (String.ofList w)).Spelled after _ := .quoted (String.ofList w)
    rwa [String.toList_ofList] at hs
  whole := by
    rwa [Whole, String.toList_ofList]
  separated := by
    rw [← List.append_assoc]
    refine Source.separated_of_other (List.cons_ne_nil _ _) (fun c hc => ?_) _ after
    rw [List.mem_singleton.mp hc]
    exact ⟨rfl, rfl⟩

theorem stands_unclosed {w : Source} (hw : '"' ∉ w) (before : Source) :
    Stands before ('"' :: w) [] (.string (String.ofList w)) where
  spelled := by
    have hs := Spelled.unclosed (String.ofList w) rfl
    rwa [String.toList_ofList] at hs
  whole := by
    rwa [Whole, String.toList_ofList]
  separated := Source.separated_nil _

theorem stands_symbol {s : Symbol} {after : Source}
    (hs : s = .assign ∨ s = .bang → after.head? ≠ some '=') (before : Source) :
    Stands before s.text.toList after (.symbol s) where
  spelled := .plain Kind.noConfusion
  whole := hs
  separated := by
    have hn : s.text.toList ≠ [] := by cases s <;> decide
    have ho : ∀ c ∈ s.text.toList, (!isLetter c && !c.isDigit) = true :=
      List.all_eq_true.mp (by cases s <;> decide)
    exact Source.separated_of_other hn (fun c hc => by simpa using ho c hc) before after

theorem stands_stray {c : Char} (h : Source.Stray c) (before after : Source) :
    Stands before [c] after (.illegal c) where
  spelled := by
    have hs : (illegal c).Spelled after _ := .plain Kind.noConfusion
    rwa [literal, Char.toString, String.toList_singleton] at hs
  whole := h
  separated := Source.separated_of_other (List.cons_ne_nil _ _)
    (fun d hd => by rw [List.mem_singleton.mp hd]; exact ⟨h.letter, h.digit⟩) before after

theorem off_left {p : Char → Bool} {before rest : Source} {c : Char} (hc : p c = true)
    (hb : Off p before.reverse ∨ Off p (c :: rest)) : Off p before.reverse :=
  hb.resolve_right fun h => by
    have hn := h c rfl
    rw [hc] at hn
    cases hn

theorem run_all {p : Char → Bool} {c : Char} (hc : p c = true) (rest : Source) :
    ∀ d ∈ c :: rest.takeWhile p, p d = true := by
  rw [← List.takeWhile_cons_of_pos hc]
  exact fun d hd => List.mem_takeWhile_imp hd

theorem run_append {p : Char → Bool} (c : Char) (rest : Source) :
    c :: rest = c :: rest.takeWhile p ++ rest.dropWhile p :=
  congrArg (c :: ·) List.takeWhile_append_dropWhile.symm

theorem stands_string (before rest : Source) :
    ∃ form, '"' :: rest = form ++ (rest.dropWhile (· ≠ '"')).drop 1 ∧
      Stands before form ((rest.dropWhile (· ≠ '"')).drop 1)
        (.string (String.ofList (rest.takeWhile (· ≠ '"')))) := by
  have hw : '"' ∉ rest.takeWhile (· ≠ '"') := fun h => by
    have hq := List.mem_takeWhile_imp h
    exact absurd rfl (of_decide_eq_true hq)
  have ha := run_append (p := (· ≠ '"')) '"' rest
  have ho := Source.off_dropWhile (· ≠ '"') rest
  cases hd : rest.dropWhile (· ≠ '"') with
  | nil =>
    rw [hd] at ha
    exact ⟨_, ha, stands_unclosed hw before⟩
  | cons d ds =>
    rw [hd] at ha ho
    obtain rfl : d = '"' := by simpa using ho d rfl
    exact ⟨_, by rw [ha]; simp, stands_quoted hw before ds⟩

theorem stands_token {before rest : Source} {c : Char} (hc : isLayout c = false)
    (hb : Source.Separated before (c :: rest)) :
    ∃ form, c :: rest = form ++ (Source.token c rest).2 ∧
      Stands before form (Source.token c rest).2 (Source.token c rest).1 := by
  by_cases hq : c = '"'
  · subst hq
    rw [Source.token, if_pos rfl]
    exact stands_string before rest
  by_cases hl : isLetter c = true
  · rw [Source.token, if_neg hq, if_pos hl]
    exact ⟨_, run_append c rest, stands_word (List.cons_ne_nil _ _) (run_all hl rest)
      (off_left hl hb.letters) (Source.off_dropWhile _ _)⟩
  by_cases hd : c.isDigit = true
  · rw [Source.token, if_neg hq, if_neg hl, if_pos hd]
    exact ⟨_, run_append c rest, stands_digits (List.cons_ne_nil _ _) (run_all hd rest)
      (off_left hd hb.digits) (Source.off_dropWhile _ _)⟩
  rw [Source.token, if_neg hq, if_neg hl, if_neg hd]
  cases hs : Source.symbol? (c :: rest) with
  | some x =>
    obtain ⟨happend, hnext⟩ := Source.symbol?_some hs
    exact ⟨_, happend, stands_symbol hnext before⟩
  | none =>
    have hn := Source.ofChar?_of_symbol? hs
    have hstray : Source.Stray c :=
      ⟨hc, Bool.eq_false_iff.mpr hl, Bool.eq_false_iff.mpr hd, hq,
        fun s h => Symbol.ofChar?_of_head h hn⟩
    exact ⟨[c], rfl, stands_stray hstray before rest⟩

end Token

theorem laid_tokens (cs : Source) {before : Source} (hb : Source.Separated before cs) :
    Laid before cs cs.tokens := by
  have hg : ∀ c ∈ cs.takeWhile isLayout, isLayout c = true := fun c hc =>
    List.mem_takeWhile_imp hc
  have hcs : cs.takeWhile isLayout ++ cs.dropWhile isLayout = cs := List.takeWhile_append_dropWhile
  cases hd : cs.dropWhile isLayout with
  | nil =>
    have hn : Source.next cs = (.eof, []) := by rw [Source.next, hd]
    have hall : cs.takeWhile isLayout = cs := by
      rw [hd, List.append_nil] at hcs
      exact hcs
    rw [Source.tokens_eq, hn, if_pos rfl]
    exact .nil fun c hc => hg c (by rwa [hall])
  | cons c rest =>
    have hn : Source.next cs = Source.token c rest := by rw [Source.next, hd]
    have hc : isLayout c = false := by
      have ho := Source.off_dropWhile isLayout cs
      rw [hd] at ho
      exact ho c rfl
    have hlt : (Source.token c rest).2.length < cs.length := by
      rw [← hn]
      exact Source.next_length (by rw [hn]; exact Source.token_ne_eof c rest)
    rw [hd] at hcs
    obtain ⟨form, hform, hs⟩ := Token.stands_token hc ((hcs ▸ hb).gap hg)
    have ih := laid_tokens (Source.token c rest).2 hs.separated
    have hl := Laid.cons hg hs.spelled hs.whole ih
    rw [List.append_assoc, ← hform, hcs] at hl
    rwa [Source.tokens_of_next hn (Source.token_ne_eof c rest)]
termination_by cs.length
decreasing_by exact hlt

theorem laid_iff {cs : Source} {ts : List Token} : Laid [] cs ts ↔ ts = cs.tokens := by
  refine ⟨Laid.tokens, fun h => ?_⟩
  rw [h]
  exact laid_tokens cs ⟨.inl (Source.off_nil _), .inl (Source.off_nil _)⟩

/-- Every text is taken apart into whole tokens, and nothing of it is lost or cut. -/
theorem Scanner.lossless (text : String) :
    (∀ t ∈ Source.tokens text.toList, t ≠ .eof) ∧
    (Source.tokens text.toList).length ≤ text.length ∧
    (∀ n, (ofString text).nth? n = some ((Source.tokens text.toList)[n]?.getD .eof)) ∧
    (∀ ts, Laid [] text.toList ts ↔ ts = Source.tokens text.toList) := by
  refine ⟨(laid_iff.mpr rfl).ne_eof, ?_, fun n => ?_, fun ts => laid_iff⟩
  · rw [← String.length_toList]
    exact Source.tokens_length_le _
  · rw [(at_ofString text).nth n, Source.nth_eq_getD]

end MonkeyLang
