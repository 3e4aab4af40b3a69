import MonkeyLang.Proofs.Parsing.Following
import MonkeyLang.Proofs.Recovery

namespace MonkeyLang

open Production (statements statement endsProgram statements_some moves_statement moves_statements)

theorem Production.statements_ends {n : Nat} {ends : Token → Bool} {c c' : Cursor} {b : List Stmt}
    (h : (statements n ends).outcome c = (some b, c')) : ends c'.cur = true := by
  induction n generalizing c b with
  | zero => cases h
  | succ n ih =>
    cases statements_some.mp h with
    | done he => exact he
    | keep _ _ hb => exact ih hb
    | drop _ _ hb => exact ih hb

namespace Cursor

/-- Both tokens in sight are the end of the text. -/
structure Finished (c : Cursor) : Prop where
  cur : c.cur = .eof
  peek : c.peek = .eof

theorem finished_of_statements {n : Nat} {c c' : Cursor} {b : List Stmt} (hc : c.Aligned)
    (h : (statements n endsProgram).outcome c = (some b, c')) : c'.Finished := by
  have he : c'.cur = .eof := of_decide_eq_true (Production.statements_ends h)
  exact ⟨he, (((moves_statements n endsProgram).reaches h).aligned hc).peek he⟩

theorem finished_program {c : Cursor} (hc : c.Aligned) : c.program.2.Finished :=
  finished_of_statements hc (c.program_outcome hc)

theorem program_of_finished {c : Cursor} (h : c.Finished) : c.program = ([], c) :=
  program_eq (statements_some.mpr (.done (decide_eq_true h.cur)))

theorem place_lt_past_statement (n : Nat) (c : Cursor) :
    c.place < ((statement n).outcome c).2.advance.place :=
  Nat.lt_succ_of_le (moves_statement n c).place_le

theorem statements_of_ample {cs : Source} {n : Nat} (hn : 4 * cs.tokens.length + 4 ≤ n) :
    ∃ c, (statements n endsProgram).outcome (ofSource cs) = (some (ofSource cs).program.1, c) ∧
      c.Finished ∧ c.place = (ofSource cs).program.2.place ∧
      c.diagnostics = (ofSource cs).program.2.diagnostics := by
  -- The text is read within nothing, where every depth that is enough gives the same.
  let σ : Surroundings := ⟨0, #[], [], False, fun _ => rfl⟩
  have ha := aligned_ofSource cs
  have hb : Beside σ (ofSource cs) (ofSource cs) :=
    beside_ofSource ha (by rw [tokens_ofSource, List.append_nil]) rfl rfl
  obtain ⟨c, ho, hc⟩ := statements_of_within not_false ⟨hb, False.elim⟩ hn
  refine ⟨c, ho, finished_of_statements ha ho, hc.place, ?_⟩
  rw [hc.diagnostics, Diagnostic.map_shift_zero]
  exact Array.empty_append

/-- The tokens of a text are taken one by one, each of them once, and reading comes to their end
whatever they are. -/
theorem tokens_read_once (cs : Source) :
    (∀ c, (ofSource cs).Reaches c → c.cur = cs.nth c.place ∧ c.peek = cs.nth (c.place + 1) ∧
      c.unread = cs.after (c.place + 2)) ∧
    (∀ n, Production.Moving n) ∧
    (∀ c c', Reaches c c' → c.place ≤ c'.place) ∧
    (∀ n c, c.place < ((statement n).outcome c).2.advance.place) ∧
    (∀ n, (ofSource cs).depth ≤ n → ∃ c,
      (statements n endsProgram).outcome (ofSource cs) = (some (ofSource cs).program.1, c) ∧
      c.cur = .eof ∧ c.peek = .eof ∧ c.place = (ofSource cs).program.2.place ∧
      c.diagnostics = (ofSource cs).program.2.diagnostics) ∧
    (ofSource cs).program.2.cur = .eof ∧ (ofSource cs).program.2.peek = .eof ∧
    (ofSource cs).program.2.program = ([], (ofSource cs).program.2) := by
  have hend := finished_program (aligned_ofSource cs)
  refine ⟨fun c hr => ?_, Production.moving, fun c c' hr => hr.place_le, place_lt_past_statement,
    fun n hn => ?_, hend.cur, hend.peek, program_of_finished hend⟩
  · have hf := hr.follows (follows_ofSource cs)
    exact ⟨hf.cur, hf.peek, hf.unread⟩
  · have hd := (ofSource cs).depth_ample
    rw [tokens_ofSource] at hd
    obtain ⟨c, ho, hc, hp, hds⟩ := statements_of_ample (Nat.le_trans hd hn)
    exact ⟨c, ho, hc.cur, hc.peek, hp, hds⟩

end Cursor

end MonkeyLang
