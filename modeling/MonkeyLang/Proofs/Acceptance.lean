import MonkeyLang.Proofs.Parsing.Completeness

namespace MonkeyLang

open Phrase (Spans Parted Ends)
open Production (statements endsProgram)

namespace Cursor

theorem tokens_length_le (c : Cursor) : c.tokens.length ≤ c.unread.length + 2 := by
  have hl := c.unread.tokens_length_le
  unfold tokens
  split
  · exact Nat.zero_le _
  · split <;> simp only [List.length_cons, List.length_nil] <;> omega

theorem depth_ample (c : Cursor) : 4 * c.tokens.length + 4 ≤ c.depth := by
  have hl := c.tokens_length_le
  unfold depth
  omega

theorem program_eq {c c' : Cursor} {b : List Stmt}
    (h : (statements c.depth endsProgram).outcome c = (some b, c')) : c.program = (b, c') := by
  unfold program
  rw [show (statements c.depth endsProgram).run c = (some b, c') from h]
  rfl

theorem program_outcome (c : Cursor) (hc : c.Aligned) :
    (statements c.depth endsProgram).outcome c = (some c.program.1, c.program.2) := by
  obtain ⟨b, c', h, -⟩ := (Production.accounting _).statements endsProgram c rfl hc c.depth_ample
  rw [h, program_eq h]

theorem program_trace (c : Cursor) (hc : c.Aligned) : c.Trace .block c.program.2 := by
  obtain ⟨b, c', h, ht⟩ := (Production.accounting _).statements endsProgram c rfl hc c.depth_ample
  rwa [program_eq h]

end Cursor

namespace Program

variable {cs : Source} {p : Program}

theorem spans_of_ofSource (h : ofSource cs = .ok p) : Spans Parted (.stmts p) cs.tokens [] := by
  have ha := Cursor.aligned_ofSource cs
  have ho := (Cursor.ofSource cs).program_outcome ha
  simp only [ofSource] at h
  split at h
  · rename_i he
    cases h
    have hk := ((Cursor.ofSource cs).program_trace ha).counts
    rw [Array.isEmpty_iff_size_eq_zero] at he
    obtain ⟨hs, hend⟩ := (Production.sound _).statements ha ho (by omega)
    have hn : (Cursor.ofSource cs).program.2.tokens = [] :=
      Cursor.tokens_eq_nil.mpr (of_decide_eq_true hend)
    rwa [Cursor.tokens_ofSource, hn] at hs
  · cases h

theorem ofSource_of_spans (h : Spans Parted (.stmts p) cs.tokens []) : ofSource cs = .ok p := by
  have ha := Cursor.aligned_ofSource cs
  obtain ⟨c', hc', -, -, hq⟩ := Production.reads h rfl endsProgram rfl
    (fun _ => Production.endsProgram_of_leads) (Cursor.ofSource cs) _ ha
    (Cursor.tokens_ofSource cs) (Cursor.tokens_ofSource cs ▸ Cursor.depth_ample _)
  have ho := (Cursor.ofSource cs).program_outcome ha
  rw [hc'] at ho
  obtain ⟨hp, hc⟩ : p = (Cursor.ofSource cs).program.1 ∧ c' = (Cursor.ofSource cs).program.2 := by
    simpa using ho
  have he : (Cursor.ofSource cs).program.2.diagnostics.isEmpty = true := by
    rw [← hc, hq]
    rfl
  simp only [ofSource, he, if_true]
  rw [← hp]

/-- A text is accepted with a program exactly when the grammar derives the program from all tokens
of the text. -/
theorem ofSource_eq_ok_iff (cs : Source) (p : Program) :
    ofSource cs = .ok p ↔ Spans Parted (.stmts p) cs.tokens [] :=
  ⟨spans_of_ofSource, ofSource_of_spans⟩

theorem tokens_juxtaposed : Source.tokens "1 2".toList = [.int "1", .int "2"] := by
  have h : (Cursor.ofSource "1 2".toList).tokens = .int "1" :: .int "2" :: Source.tokens [] := rfl
  rw [← Cursor.tokens_ofSource, h, Source.tokens_nil]

theorem ofSource_juxtaposed :
    ofSource "1 2".toList = .ok [.expr (.int 1), .expr (.int 2)] ∧
      ∀ p, ¬ Spans Ends (.stmts p) (Source.tokens "1 2".toList) [] := by
  have ha : ofSource "1 2".toList = .ok [.expr (.int 1), .expr (.int 2)] := rfl
  refine ⟨ha, fun p h => ?_⟩
  -- A derivation for `Ends` is one for `Parted`, so it derives the program that was read.
  have hp := ofSource_of_spans (h.mono fun _ => Phrase.Ends.parted)
  rw [ha] at hp
  cases hp
  rw [tokens_juxtaposed] at h
  cases h with
  | stmtsClosed hs _ =>
    have hm := hs.suffix.subset (List.mem_cons_self ..)
    simp at hm
  | stmtsBare _ he hb =>
    obtain ⟨t, us, rfl, ht, -⟩ := hb.begins trivial
    exact he t rfl ht

end Program

end MonkeyLang
