import MonkeyLang.Proofs.Lossless
import MonkeyLang.Proofs.Recovery

namespace MonkeyLang

open Source (isLayout Off)

/-- A token written out by itself, a string always with its closing quote. -/
def Token.form : Token → Source
  | .string text => '"' :: text.toList ++ ['"']
  | t => t.literal.toList

structure Gap where
  chars : Source
  nonempty : chars ≠ []
  layout : ∀ c ∈ chars, isLayout c = true

/-- Tokens written out, with a gap before the first one and one after each. -/
def Source.spaced (gaps : Nat → Gap) : List Token → Source
  | [] => (gaps 0).chars
  | t :: ts => (gaps 0).chars ++ t.form ++ spaced (fun n => gaps (n + 1)) ts

theorem Token.spelled_form (t : Token) (after : Source) : t.Spelled after t.form := by
  cases t with
  | string text => exact .quoted text
  | _ => exact .plain Kind.noConfusion

theorem Laid.whole {before cs : Source} {ts : List Token} (h : Laid before cs ts) :
    ∀ t ∈ ts, ∃ b a, t.Whole b a := by
  induction h with
  | nil => exact fun t ht => absurd ht List.not_mem_nil
  | cons _ _ hw _ ih => exact List.forall_mem_cons.mpr ⟨⟨_, _, hw⟩, ih⟩

namespace Gap

variable {p : Char → Bool}

theorem off (g : Gap) (hp : ∀ c, isLayout c = true → p c = false) (rest : Source) :
    Off p (g.chars ++ rest) := by
  obtain ⟨c, cs, hc⟩ := List.exists_cons_of_ne_nil g.nonempty
  rw [hc]
  rintro d ⟨⟩
  exact hp c (g.layout c (hc ▸ List.mem_cons_self))

/-- Between gaps no run goes any further. -/
theorem bounded (g g' : Gap) (hp : ∀ c, isLayout c = true → p c = false) (before rest : Source) :
    Source.Bounded p (before ++ g.chars) (g'.chars ++ rest) where
  left := Source.off_reverse g.nonempty (fun c hc => hp c (g.layout c hc)) before
  right := g'.off hp rest

theorem head?_ne_equals (g : Gap) (rest : Source) : (g.chars ++ rest).head? ≠ some '=' := by
  have hp : ∀ c, isLayout c = true → decide (c = '=') = false := by
    intro c hc
    refine decide_eq_false ?_
    rintro rfl
    exact absurd hc (by decide)
  exact fun h => absurd (g.off hp rest '=' h) (by decide)

end Gap

/-- A token that is whole somewhere is whole between gaps. -/
theorem Token.Whole.between {t : Token} {b a : Source} (h : t.Whole b a) (g g' : Gap)
    (before rest : Source) : t.Whole (before ++ g.chars) (g'.chars ++ rest) := by
  have hletter := g.bounded g' (fun _ => Source.not_letter_of_layout) before rest
  have hdigit := g.bounded g' (fun _ => Source.not_digit_of_layout) before rest
  cases t with
  | illegal c => exact h
  | eof => exact h
  | ident name =>
    obtain ⟨hne, hl, -, hk⟩ := h
    exact ⟨hne, hl, hletter, hk⟩
  | int digits =>
    obtain ⟨hne, hd, -⟩ := h
    exact ⟨hne, hd, hdigit⟩
  | string text => exact h
  | symbol s => exact fun _ => g'.head?_ne_equals rest
  | keyword k => exact hletter

theorem Source.spaced_eq_append (gaps : Nat → Gap) (ts : List Token) :
    ∃ rest, spaced gaps ts = (gaps 0).chars ++ rest := by
  cases ts with
  | nil => exact ⟨[], (List.append_nil _).symm⟩
  | cons t ts => exact ⟨_, List.append_assoc ..⟩

theorem laid_spaced {ts : List Token} (hts : ∀ t ∈ ts, ∃ b a, t.Whole b a) (gaps : Nat → Gap)
    (before : Source) : Laid before (Source.spaced gaps ts) ts := by
  induction ts generalizing gaps before with
  | nil => exact .nil (gaps 0).layout
  | cons t ts ih =>
    obtain ⟨⟨b, a, hw⟩, hts⟩ := List.forall_mem_cons.mp hts
    refine .cons (gaps 0).layout (t.spelled_form _) ?_ (ih hts _ _)
    obtain ⟨rest, hr⟩ := Source.spaced_eq_append (fun n => gaps (n + 1)) ts
    rw [hr]
    exact hw.between _ _ before rest

theorem Source.tokens_spaced (gaps : Nat → Gap) (cs : Source) :
    (spaced gaps cs.tokens).tokens = cs.tokens :=
  (laid_spaced (laid_iff.mpr rfl).whole gaps []).tokens.symm

/-- Reading depends on a text only by its tokens. -/
theorem Cursor.program_congr {cs cs' : Source} (h : cs.tokens = cs'.tokens) :
    (ofSource cs').program.1 = (ofSource cs).program.1 ∧
      (ofSource cs').program.2.diagnostics = (ofSource cs).program.2.diagnostics := by
  let σ : Surroundings := ⟨0, #[], [], False, fun _ => rfl⟩
  have hb : Beside σ (ofSource cs) (ofSource cs') :=
    beside_ofSource (aligned_ofSource cs') (by rw [tokens_ofSource, h, List.append_nil]) rfl rfl
  have hd := (ofSource cs').depth_ample
  rw [tokens_ofSource, ← h] at hd
  obtain ⟨d, ho, hend⟩ := statements_of_within not_false ⟨hb, False.elim⟩ hd
  rw [(ofSource cs').program_outcome (aligned_ofSource cs')] at ho
  obtain ⟨hp, rfl⟩ := Prod.mk.inj ho
  refine ⟨Option.some.inj hp, ?_⟩
  rw [hend.diagnostics, Diagnostic.map_shift_zero]
  exact Array.empty_append

/-- The tokens of a text, written out with any gaps between them, are read as those tokens again,
and so as the same program with the same diagnostics. -/
theorem Source.layout_immaterial (text : String) (gaps : Nat → Gap) :
    let cs := spaced gaps (tokens text.toList)
    cs.tokens = tokens text.toList ∧
    (∀ n, (Scanner.ofString (String.ofList cs)).nth? n = (Scanner.ofString text).nth? n) ∧
    (Cursor.ofSource cs).program.1 = (Cursor.ofSource text.toList).program.1 ∧
    (Cursor.ofSource cs).program.2.diagnostics =
      (Cursor.ofSource text.toList).program.2.diagnostics := by
  intro cs
  have ht : cs.tokens = tokens text.toList := tokens_spaced gaps text.toList
  obtain ⟨hp, hd⟩ := Cursor.program_congr ht.symm
  refine ⟨ht, fun n => ?_, hp, hd⟩
  rw [(Scanner.at_ofString _).nth n, (Scanner.at_ofString text).nth n, String.toList_ofList,
    nth_eq_getD, nth_eq_getD, ht]

end MonkeyLang
