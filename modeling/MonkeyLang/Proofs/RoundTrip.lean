import MonkeyLang.Proofs.Parsing.Building
import MonkeyLang.Proofs.Rendering

namespace MonkeyLang

theorem Cursor.program_wellFormed (cs : Source) : (ofSource cs).program.1.WellFormed := by
  have ho := (ofSource cs).program_outcome (aligned_ofSource cs)
  exact (Production.building _).statements (lexical_ofSource cs) ho

namespace Program

theorem program_of_ofSource {cs : Source} {p : Program} (h : ofSource cs = .ok p) :
    (Cursor.ofSource cs).program.1 = p := by
  simp only [ofSource] at h
  split at h
  · cases h
    rfl
  · cases h

theorem ofSource_text {p : Program} (h : p.WellFormed) : ofSource p.text.toList = .ok p :=
  ofSource_of_spans h.spans_text

theorem ofSource_text_conditional :
    let p : Program :=
      [.bind "f" (.fn ["x", "y_"] [.expr (.cond (.binary (.ident "x") .lt (.ident "y_"))
        [.ret (.unary .minus (.ident "x"))] (some [.expr (.hash [(.string "a;", .array [])])]))]),
      .expr (.call (.ident "f") [.int 1, .index (.array [.int 2]) (.int 0)]), .expr (.bool true)]
    p.WellFormed ∧ ofSource p.text.toList = .ok p :=
  ⟨by decide, ofSource_text (by decide)⟩

/-- Whatever was read from a text, errors or not, is well-formed, and its text restores it. -/
theorem read_restored (cs : Source) :
    let p := (Cursor.ofSource cs).program.1
    p.WellFormed ∧ ofSource p.text.toList = .ok p ∧
      (Cursor.ofSource p.text.toList).program.1.text = p.text := by
  intro p
  have hw : p.WellFormed := Cursor.program_wellFormed cs
  have hr : ofSource p.text.toList = .ok p := ofSource_of_spans hw.spans_text
  exact ⟨hw, hr, by rw [program_of_ofSource hr]⟩

end Program

end MonkeyLang
