import MonkeyLang.Scanner
import MonkeyLang.Proofs.Lexing.Bytes
import MonkeyLang.Proofs.Lexing.Stream

namespace MonkeyLang

namespace Scanner

/-- The bytes from the current one on. -/
def ahead (s : Scanner) : List UInt8 := s.text.toByteArray.data.toList.drop s.position

theorem length_ahead (s : Scanner) : s.ahead.length = s.text.utf8ByteSize - s.position :=
  List.length_drop

theorem byte_ahead (s : Scanner) (k : Nat) : byteAt s.text (s.position + k) = s.ahead[k]?.getD 0 := by
  rw [ahead, List.getElem?_drop, byteAt, Array.getElem?_toList]

theorem cur_eq (s : Scanner) : s.cur = Char.ofUInt8 (s.ahead.headD 0) := by
  rw [cur, s.byte_eq, ← Nat.add_zero s.position, byte_ahead, List.headD_eq_head?_getD,
    List.head?_eq_getElem?]

theorem peek_eq (s : Scanner) : s.peek = Char.ofUInt8 (s.ahead.tail.headD 0) := by
  rw [peek, s.readPosition_eq, byte_ahead, List.headD_eq_head?_getD, List.head?_eq_getElem?,
    List.getElem?_tail]

theorem atEnd_iff (s : Scanner) : s.atEnd = true ↔ s.ahead = [] := by
  rw [← List.length_eq_zero_iff, length_ahead, Nat.sub_eq_zero_iff_le]
  exact decide_eq_true_iff

theorem ahead_readByte (s : Scanner) : s.readByte.ahead = s.ahead.tail := by
  show s.text.toByteArray.data.toList.drop (min s.readPosition s.text.utf8ByteSize) = _
  rw [s.readPosition_eq, ahead, List.tail_drop]
  rcases Nat.le_total (s.position + 1) s.text.utf8ByteSize with h | h
  · rw [Nat.min_eq_left h]
  · have hl : s.text.toByteArray.data.toList.length = s.text.utf8ByteSize := rfl
    rw [Nat.min_eq_right h, List.drop_of_length_le (Nat.le_of_eq hl),
      List.drop_of_length_le (Nat.le_trans (Nat.le_of_eq hl) h)]

theorem text_readWhile (p : Char → Bool) (s : Scanner) : (s.readWhile p).text = s.text := by
  induction s using readWhile.induct p with
  | case1 s h ih => rw [readWhile, dif_pos h, ih]; rfl
  | case2 s h => rw [readWhile, dif_neg h]

theorem ahead_readWhile (p : Char → Bool) (s : Scanner) :
    (s.readWhile p).ahead = s.ahead.dropWhile (p ∘ Char.ofUInt8) := by
  induction s using readWhile.induct p with
  | case1 s h ih =>
    obtain ⟨b, bs, hs⟩ := List.exists_cons_of_ne_nil fun hn =>
      absurd (s.atEnd_iff.mpr hn) (Bool.eq_false_iff.mp h.1)
    have hb : (p ∘ Char.ofUInt8) b = true := by
      have := h.2
      rwa [cur_eq, hs] at this
    rw [readWhile, dif_pos h, ih, ahead_readByte, hs, List.dropWhile_cons_of_pos hb]
    rfl
  | case2 s h =>
    rw [readWhile, dif_neg h]
    cases hs : s.ahead with
    | nil => rfl
    | cons b bs =>
      have he : s.atEnd = false := Bool.eq_false_iff.mpr fun he => by
        rw [s.atEnd_iff.mp he] at hs
        cases hs
      have hb : ¬ (p ∘ Char.ofUInt8) b = true := fun hb => h ⟨he, by rwa [cur_eq, hs]⟩
      rw [List.dropWhile_cons_of_neg hb]

theorem text_repeat (n : Nat) (s : Scanner) : (Nat.repeat readByte n s).text = s.text := by
  induction n with
  | zero => rfl
  | succ n ih => exact ih

theorem ahead_repeat (n : Nat) (s : Scanner) :
    (Nat.repeat readByte n s).ahead = s.ahead.drop n := by
  induction n with
  | zero => rfl
  | succ n ih => rw [Nat.repeat, ahead_readByte, ih, List.tail_drop]

/-- Between two characters of a text, with what was read and what is left of it. -/
structure At (s : Scanner) (read rest : Source) : Prop where
  text : s.text = String.ofList (read ++ rest)
  ahead : s.ahead = bytes rest

section

variable {s : Scanner} {read rest : Source}

theorem At.position (h : s.At read rest) : s.position = String.utf8Len read := by
  have hl := s.length_ahead
  have hp := s.position_le
  have hs : s.text.utf8ByteSize = String.utf8Len read + String.utf8Len rest := by
    rw [h.text, String.utf8ByteSize_ofList, String.utf8Len_append]
  rw [h.ahead, length_bytes] at hl
  omega

theorem At.atEnd (h : s.At read rest) : s.atEnd = true ↔ rest = [] := by
  rw [atEnd_iff, h.ahead, bytes_eq_nil]

theorem at_ofString (text : String) : (ofString text).At [] text.toList := by
  refine ⟨(String.ofList_toList (s := text)).symm, ?_⟩
  show text.toByteArray.data.toList.drop (min 0 _) = _
  rw [Nat.zero_min, List.drop_zero]
  nth_rewrite 1 [← String.ofList_toList (s := text)]
  rw [toByteArray_data]

theorem At.readWhile (h : s.At read rest) {p : Char → Bool} (hp : TellsAscii p) :
    (s.readWhile p).At (read ++ rest.takeWhile p) (rest.dropWhile p) where
  text := by rw [text_readWhile, h.text, List.append_assoc, List.takeWhile_append_dropWhile]
  ahead := by rw [ahead_readWhile, h.ahead, bytes_dropWhile hp]

theorem At.repeat {c : Char} (h : s.At read (c :: rest)) :
    (Nat.repeat readByte c.utf8Size s).At (read ++ [c]) rest where
  text := by
    rw [text_repeat, h.text, List.append_assoc]
    rfl
  ahead := by rw [ahead_repeat, h.ahead, bytes_cons, ← String.length_utf8EncodeChar, List.drop_left]

theorem At.readByte {c : Char} (h : s.At read (c :: rest)) (hc : c.toNat < 128) :
    s.readByte.At (read ++ [c]) rest where
  text := by
    show s.text = _
    rw [h.text, List.append_assoc]
    rfl
  ahead := by
    rw [ahead_readByte, h.ahead, bytes_cons, utf8EncodeChar_ascii hc]
    rfl

theorem slice?_append (a b c : Source) :
    slice? (String.ofList (a ++ b ++ c)) (String.utf8Len a) (String.utf8Len a + String.utf8Len b) =
      some (String.ofList b) := by
  have hv (d e : Source) :
      String.Pos.Raw.IsValid (String.ofList (d ++ e)) ⟨String.utf8Len d⟩ := by
    refine String.Pos.Raw.isValid_ofList.mpr ⟨d.length, ?_⟩
    rw [List.take_left, String.utf8ByteSize_ofList]
  have hb := hv (a ++ b) c
  rw [String.utf8Len_append] at hb
  have ha := hv a (b ++ c)
  rw [← List.append_assoc] at ha
  rw [slice?, if_pos ⟨Nat.le_add_right .., ha, hb⟩, String.extract_of_valid]

theorem At.upTo {e : Scanner} {w : Source} (h : s.At read (w ++ rest)) (he : e.At (read ++ w) rest) :
    s.upTo? e = some (String.ofList w) := by
  rw [upTo?, h.text, h.position, he.position, String.utf8Len_append, ← List.append_assoc,
    slice?_append]

theorem At.upTo_readWhile (h : s.At read rest) {p : Char → Bool} (hp : TellsAscii p) :
    s.upTo? (s.readWhile p) = some (String.ofList (rest.takeWhile p)) := by
  have he := h.readWhile hp
  rw [← List.takeWhile_append_dropWhile (p := p) (l := rest)] at h
  exact h.upTo he

theorem At.char (h : s.At read rest) : s.char? = some (rest.head?.getD '\uFFFD') := by
  have hs : s.text.utf8ByteSize = String.utf8Len read + String.utf8Len rest := by
    rw [h.text, String.utf8ByteSize_ofList, String.utf8Len_append]
  rw [char?, hs, h.position, h.text]
  nth_rewrite 1 [← List.append_nil (read ++ rest)]
  rw [slice?_append, Option.map_some, String.toList_ofList]

theorem At.cur {α : Type} {f : Char → α} {c : Char} (h : s.At read (c :: rest))
    (hf : TellsAscii f) : f s.cur = f c := by
  obtain ⟨b, bs, he⟩ := List.exists_cons_of_ne_nil (String.utf8EncodeChar_ne_nil (c := c))
  have hb : b ∈ String.utf8EncodeChar c := he ▸ List.mem_cons_self ..
  rw [cur_eq, h.ahead, bytes_cons, he]
  exact hf.byte hb

theorem At.cur_eq_iff {d : Char} (h : s.At read rest) (hd : d.toNat < 128) (hz : d ≠ '\x00') :
    s.cur = d ↔ rest.head? = some d := by
  cases rest with
  | nil =>
    have hc : s.cur = '\x00' := by rw [cur_eq, h.ahead]; rfl
    rw [hc]
    exact ⟨fun he => absurd he.symm hz, fun he => nomatch he⟩
  | cons c cs =>
    have hc := h.cur (tellsAscii_eq hd)
    rw [decide_eq_decide] at hc
    rw [hc, List.head?_cons, Option.some.injEq]

theorem At.peek_eq_iff {c d : Char} (h : s.At read (c :: rest)) (hc : c.toNat < 128)
    (hd : d.toNat < 128) (hz : d ≠ '\x00') : s.peek = d ↔ rest.head? = some d := by
  rw [peek_eq, ← ahead_readByte, ← cur_eq]
  exact (h.readByte hc).cur_eq_iff hd hz

/-- What was read from the bytes is there, and it is what is read from the characters. -/
def Reads {α : Type} (o : Option (α × Scanner)) (x : α × Source) : Prop :=
  ∃ e read, o = some (x.1, e) ∧ e.At read x.2

/-- A symbol, read up to its end. -/
def wholeSymbol? (s : Scanner) : Option (Symbol × Scanner) :=
  s.symbol?.map fun y => (y.1, y.2.readByte)

theorem At.lookahead {c : Char} (h : s.At read (c :: rest)) (hc : c.toNat < 128)
    (long short : Symbol) :
    Reads
      ((some (if s.peek = '=' then (long, s.readByte) else (short, s))).map
        fun y => (y.1, y.2.readByte))
      (if rest.head? = some '=' then (long, rest.tail) else (short, rest)) := by
  have hp := h.peek_eq_iff (d := '=') hc (by decide) (by decide)
  have hr := h.readByte hc
  by_cases he : rest.head? = some '='
  · obtain ⟨cs, rfl⟩ := List.head?_eq_some_iff.mp he
    rw [if_pos he, if_pos (hp.mpr he)]
    exact ⟨_, _, rfl, hr.readByte (by decide)⟩
  · rw [if_neg he, if_neg (mt hp.mp he)]
    exact ⟨_, _, rfl, hr⟩

theorem symbol?_of_ne {s : Scanner} (he : s.cur ≠ '=') (hb : s.cur ≠ '!') :
    s.symbol? = (Symbol.ofChar? s.cur).map (·, s) := by
  unfold symbol?
  split
  · contradiction
  · contradiction
  · rfl

theorem symbol?_of_pair {s : Scanner} {c : Char} {long short : Symbol} (hc : s.cur = c)
    (h : Source.Pair c long short) :
    s.symbol? = some (if s.peek = '=' then (long, s.readByte) else (short, s)) := by
  cases h <;> simp only [symbol?, hc]

theorem At.symbol {c : Char} (h : s.At read (c :: rest)) :
    match Source.symbol? (c :: rest) with
    | some x => Reads s.wholeSymbol? x
    | none => s.symbol? = none := by
  have hcur {d : Char} (hd : d.toNat < 128) (hz : d ≠ '\x00') : s.cur = d ↔ c = d := by
    rw [h.cur_eq_iff hd hz, List.head?_cons, Option.some.injEq]
  rcases Source.pair_or c with ⟨long, short, hp⟩ | ⟨he, hb⟩
  · have hascii : c.toNat < 128 ∧ c ≠ '\x00' := by cases hp <;> decide
    rw [Source.symbol?_pair hp, wholeSymbol?,
      symbol?_of_pair ((hcur hascii.1 hascii.2).mpr rfl) hp]
    exact h.lookahead hascii.1 long short
  · have hs : s.symbol? = (Symbol.ofChar? c).map (·, s) := by
      rw [← h.cur tellsAscii_symbol]
      exact symbol?_of_ne (mt (hcur (by decide) (by decide)).mp he)
        (mt (hcur (by decide) (by decide)).mp hb)
    rw [Source.symbol?_alone he hb, wholeSymbol?, hs]
    cases hc : Symbol.ofChar? c with
    | none => rfl
    | some t => exact ⟨_, _, rfl, h.readByte (ascii_of_symbol hc)⟩

theorem At.pastQuote {cs : Source} (h : s.At read (cs.dropWhile (· ≠ '"'))) :
    ∃ read', s.readByte.At read' ((cs.dropWhile (· ≠ '"')).drop 1) := by
  have hq := List.head?_dropWhile_not (fun c => decide (c ≠ '"')) cs
  cases hd : cs.dropWhile (· ≠ '"') with
  | nil =>
    -- The string ends with the text, and there is no quote to step over.
    rw [hd] at h
    exact ⟨read, h.text, by rw [ahead_readByte, h.ahead]; rfl⟩
  | cons d ds =>
    rw [hd] at h hq
    obtain rfl : d = '"' := by simpa using hq
    exact ⟨_, h.readByte (by decide)⟩

theorem At.string (h : s.At read ('"' :: rest)) :
    Reads s.token?
      (.string (String.ofList (rest.takeWhile (· ≠ '"'))), (rest.dropWhile (· ≠ '"')).drop 1) := by
  have hp : TellsAscii fun c => decide (c ≠ '"') := tellsAscii_ne (by decide)
  have hsymbol : s.symbol? = none := by
    have hs := h.symbol
    rwa [Source.symbol?_eq_none (.inl rfl)] at hs
  have hcur : s.cur = '"' := (h.cur_eq_iff (by decide) (by decide)).mpr rfl
  have hr := h.readByte (by decide)
  have hposition : s.readByte.position = s.position + 1 := by
    rw [hr.position, h.position, String.utf8Len_append]
    rfl
  have hslice := hr.upTo_readWhile hp
  rw [upTo?, hposition] at hslice
  obtain ⟨read', hlast⟩ := (hr.readWhile hp).pastQuote
  refine ⟨_, read', ?_, hlast⟩
  simp only [token?, hsymbol, if_pos hcur]
  exact congrArg (Option.map _) hslice

theorem At.run {c : Char} (h : s.At read (c :: rest)) {p : Char → Bool} (hp : TellsAscii p)
    (hc : p c = true) (f : String → Token) :
    Reads ((s.upTo? (s.readWhile p)).map (f ·, s.readWhile p))
      (f (String.ofList (c :: rest.takeWhile p)), rest.dropWhile p) := by
  have hw := h.upTo_readWhile hp
  have he := h.readWhile hp
  rw [List.takeWhile_cons_of_pos hc] at hw
  rw [List.dropWhile_cons_of_pos hc] at he
  exact ⟨_, _, by rw [hw]; rfl, he⟩

theorem At.token {c : Char} (h : s.At read (c :: rest)) :
    Reads s.token? (Source.token c rest) := by
  -- The scanner asks for a symbol first. That makes no difference, as no symbol starts a string,
  -- a word or a number.
  have hs := h.symbol
  have hquote : s.cur = '"' ↔ c = '"' := by
    rw [h.cur_eq_iff (by decide) (by decide), List.head?_cons, Option.some.injEq]
  have hletter := h.cur tellsAscii_letter
  have hdigit := h.cur tellsAscii_digit
  by_cases hq : c = '"'
  · subst hq
    rw [Source.token, if_pos rfl]
    exact h.string
  have hcur : s.cur ≠ '"' := mt hquote.mp hq
  by_cases hl : Source.isLetter c = true
  · rw [Source.symbol?_eq_none (.inr (.inl hl))] at hs
    simp only [Source.token, if_neg hq, if_pos hl]
    simp only [token?, hs, if_neg hcur, if_pos (hletter.trans hl)]
    exact h.run tellsAscii_letter hl .ofWord
  by_cases hd : c.isDigit = true
  · rw [Source.symbol?_eq_none (.inr (.inr hd))] at hs
    simp only [Source.token, if_neg hq, if_neg hl, if_pos hd]
    simp only [token?, hs, if_neg hcur, hletter, if_neg hl, if_pos (hdigit.trans hd)]
    exact h.run tellsAscii_digit hd .int
  simp only [Source.token, if_neg hq, if_neg hl, if_neg hd]
  cases hn : Source.symbol? (c :: rest) with
  | some x =>
    rw [hn] at hs
    obtain ⟨e, read', he, hat⟩ := hs
    obtain ⟨⟨t, e⟩, ht, rfl, rfl⟩ := Option.map_eq_some_iff.mp he
    exact ⟨_, read', by simp only [token?, ht], hat⟩
  | none =>
    rw [hn] at hs
    refine ⟨_, _, ?_, h.repeat⟩
    simp only [token?, hs, if_neg hcur, hletter, if_neg hl, hdigit, if_neg hd, h.char]
    rfl

theorem At.next (h : s.At read rest) : Reads s.next? (Source.next rest) := by
  have hl := h.readWhile tellsAscii_layout
  unfold next? Source.next
  cases hd : rest.dropWhile Source.isLayout with
  | nil =>
    rw [hd] at hl
    exact ⟨_, _, if_pos (hl.atEnd.mpr rfl), hl⟩
  | cons c cs =>
    rw [hd] at hl
    rw [if_neg (mt hl.atEnd.mp (List.cons_ne_nil c cs))]
    exact hl.token

end

theorem At.nth {s : Scanner} {read rest : Source} (h : s.At read rest) (n : Nat) :
    s.nth? n = some (rest.nth n) := by
  induction n generalizing s read rest with
  | zero =>
    obtain ⟨e, _, he, -⟩ := h.next
    rw [nth?, he]
    rfl
  | succ n ih =>
    obtain ⟨e, _, he, hat⟩ := h.next
    rw [nth?, he]
    exact ih hat

end Scanner

end MonkeyLang
