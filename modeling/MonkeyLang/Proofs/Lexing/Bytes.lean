import Mathlib.Data.String.Basic
import MonkeyLang.Proofs.Lexing

namespace MonkeyLang

def bytes (cs : Source) : List UInt8 := cs.flatMap String.utf8EncodeChar

theorem bytes_cons (c : Char) (cs : Source) : bytes (c :: cs) = String.utf8EncodeChar c ++ bytes cs :=
  rfl

theorem length_bytes (cs : Source) : (bytes cs).length = String.utf8Len cs := by
  induction cs with
  | nil => rfl
  | cons c cs ih =>
    rw [bytes_cons, List.length_append, ih, String.length_utf8EncodeChar, String.utf8Len_cons,
      Nat.add_comm]

theorem bytes_eq_nil {cs : Source} : bytes cs = [] ↔ cs = [] := by
  cases cs <;> simp [bytes]

theorem toByteArray_data (cs : Source) :
    (String.ofList cs).toByteArray.data = (bytes cs).toArray := by
  rw [String.toByteArray_ofList, List.utf8Encode]
  simp [bytes]

theorem utf8EncodeChar_ascii {c : Char} (h : c.toNat < 128) :
    String.utf8EncodeChar c = [UInt8.ofNat c.toNat] := by
  unfold String.utf8EncodeChar
  exact if_pos (Nat.le_of_lt_succ h)

theorem utf8EncodeChar_beyond {c : Char} (h : 128 ≤ c.toNat) :
    ∀ b ∈ String.utf8EncodeChar c, 128 ≤ b.toNat := by
  intro b hb
  unfold String.utf8EncodeChar at hb
  have hc : c.val.toNat = c.toNat := rfl
  simp only [hc] at hb
  split at hb
  · omega
  · split at hb
    · simp only [List.mem_cons, List.not_mem_nil, or_false] at hb
      rcases hb with rfl | rfl <;> simp <;> omega
    · split at hb
      · simp only [List.mem_cons, List.not_mem_nil, or_false] at hb
        rcases hb with rfl | rfl | rfl <;> simp <;> omega
      · simp only [List.mem_cons, List.not_mem_nil, or_false] at hb
        rcases hb with rfl | rfl | rfl | rfl <;> simp <;> omega

theorem ofUInt8_ascii {c : Char} (h : c.toNat < 128) : Char.ofUInt8 (UInt8.ofNat c.toNat) = c := by
  apply Char.ext
  apply UInt32.toNat_inj.mp
  show (UInt8.ofNat c.toNat).toNat = c.toNat
  rw [UInt8.toNat_ofNat']
  exact Nat.mod_eq_of_lt (Nat.lt_trans h (by decide))

/-- Tells no two characters apart that take more than one byte. -/
def TellsAscii {α : Type} (f : Char → α) : Prop :=
  ∀ c d : Char, 128 ≤ c.toNat → 128 ≤ d.toNat → f c = f d

theorem TellsAscii.byte {α : Type} {f : Char → α} (hf : TellsAscii f) {c : Char} {b : UInt8}
    (hb : b ∈ String.utf8EncodeChar c) : f (Char.ofUInt8 b) = f c := by
  rcases Nat.lt_or_ge c.toNat 128 with h | h
  · rw [utf8EncodeChar_ascii h, List.mem_singleton] at hb
    rw [hb, ofUInt8_ascii h]
  · exact hf _ _ (utf8EncodeChar_beyond h b hb) h

theorem tellsAscii_of_eq_false {p : Char → Bool} (h : ∀ c : Char, 128 ≤ c.toNat → p c = false) :
    TellsAscii p := fun c d hc hd => (h c hc).trans (h d hd).symm

theorem not_alpha_beyond {c : Char} (h : 128 ≤ c.toNat) : c.isAlpha = false := by
  have hc : c.val.toNat = c.toNat := rfl
  delta Char.isAlpha Char.isUpper Char.isLower
  simp [UInt32.le_iff_toNat_le, hc]
  omega

theorem tellsAscii_digit : TellsAscii Char.isDigit := by
  refine tellsAscii_of_eq_false fun c h => ?_
  have hc : c.val.toNat = c.toNat := rfl
  simp [Char.isDigit, UInt32.le_iff_toNat_le, hc]
  omega

theorem ne_of_beyond {c d : Char} (hc : 128 ≤ c.toNat) (hd : d.toNat < 128) : c ≠ d := by
  rintro rfl
  exact absurd hd (Nat.not_lt.mpr hc)

theorem tellsAscii_letter : TellsAscii Source.isLetter := by
  refine tellsAscii_of_eq_false fun c h => ?_
  simp [Source.isLetter, not_alpha_beyond h, ne_of_beyond h (d := '_') (by decide)]

theorem tellsAscii_eq {d : Char} (hd : d.toNat < 128) : TellsAscii fun c => decide (c = d) :=
  tellsAscii_of_eq_false fun _ h => decide_eq_false (ne_of_beyond h hd)

theorem tellsAscii_ne {d : Char} (hd : d.toNat < 128) : TellsAscii fun c => decide (c ≠ d) :=
  fun _ _ ha hb => (decide_eq_true (ne_of_beyond ha hd)).trans
    (decide_eq_true (ne_of_beyond hb hd)).symm

theorem tellsAscii_layout : TellsAscii Source.isLayout := by
  refine tellsAscii_of_eq_false fun c h => Bool.eq_false_iff.mpr fun hc => ?_
  have hs := Source.layout_iff.mp hc
  simp only [List.mem_cons, List.not_mem_nil, or_false] at hs
  rcases hs with rfl | rfl | rfl | rfl <;> exact absurd h (by decide)

theorem ascii_of_symbol {c : Char} {t : Symbol} (h : Symbol.ofChar? c = some t) :
    c.toNat < 128 := by
  unfold Symbol.ofChar? at h
  split at h <;> first | decide | cases h

theorem tellsAscii_symbol : TellsAscii Symbol.ofChar? := by
  have hn {c : Char} (h : 128 ≤ c.toNat) : Symbol.ofChar? c = none :=
    Option.eq_none_iff_forall_ne_some.mpr fun _ ht =>
      absurd (ascii_of_symbol ht) (Nat.not_lt.mpr h)
  exact fun c d hc hd => (hn hc).trans (hn hd).symm

theorem bytes_dropWhile {p : Char → Bool} (hp : TellsAscii p) (cs : Source) :
    (bytes cs).dropWhile (p ∘ Char.ofUInt8) = bytes (cs.dropWhile p) := by
  induction cs with
  | nil => rfl
  | cons c cs ih =>
    have hb : ∀ b ∈ String.utf8EncodeChar c, (p ∘ Char.ofUInt8) b = p c := fun b hb => hp.byte hb
    cases hc : p c with
    | true =>
      rw [List.dropWhile_cons_of_pos hc, bytes_cons,
        List.dropWhile_append_of_pos fun b h => (hb b h).trans hc, ih]
    | false =>
      obtain ⟨b, bs, he⟩ := List.exists_cons_of_ne_nil (String.utf8EncodeChar_ne_nil (c := c))
      have hn : ¬ (p ∘ Char.ofUInt8) b = true := by
        rw [hb b (he ▸ List.mem_cons_self ..), hc]
        exact Bool.false_ne_true
      rw [List.dropWhile_cons_of_neg (Bool.eq_false_iff.mp hc), bytes_cons, he, List.cons_append,
        List.dropWhile_cons_of_neg hn]

end MonkeyLang
