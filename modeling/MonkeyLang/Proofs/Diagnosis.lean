import Mathlib.Logic.Function.Iterate
import MonkeyLang.Proofs.Acceptance

namespace MonkeyLang

namespace Production

/-- If the production gives no result, it has noted a reason beside all that was noted before. -/
def Explains {α : Type} (p : Production α) (c : Cursor) : Prop :=
  ∀ c', p.outcome c = (none, c') →
    c.diagnostics.toList <+: c'.diagnostics.toList ∧ c.diagnostics.size < c'.diagnostics.size

theorem Accounts.explains {α : Type} {p : Production α} {c : Cursor} (h : Accounts p c) :
    Explains p c := by
  intro c' hp
  obtain ⟨c₁, d, ht, -, rfl⟩ := h.refused hp
  have hle := ht.reaches.diagnostics_prefix.length_le
  rw [Array.length_toList, Array.length_toList] at hle
  refine ⟨Cursor.Reaches.diagnostics_prefix (ht.reaches.tail (.report d)), ?_⟩
  show _ < (c₁.diagnostics.push d).size
  rw [Array.size_push]
  exact Nat.lt_succ_of_le hle

/-- Every production explains why it gives no result, where it can be asked for one. -/
structure Explaining (n : Nat) (c : Cursor) : Prop where
  statement : Explains (statement n) c
  expression : ∀ p, Explains (expression n p) c
  continuation : ∀ p left, Explains (continuation n p left) c
  extension : ∀ left, .lowest < c.cur.precedence → Explains (extension n left) c
  operand : Explains (operand n) c
  integer : ∀ digits, c.cur = .int digits → Explains (integer digits) c
  names : Explains (listed expectName .rparen n) c
  expressions : ∀ close, Explains (listed (argument n) close n) c
  pairs : c.cur ≠ .eof → Explains (pairs n) c

theorem explaining {n : Nat} {c : Cursor} (hc : c.Aligned) (hn : Ample n c 4) :
    Explaining n c where
  statement := ((accounting n).statement c hc (by omega)).explains
  expression p := ((accounting n).expression p c hc (by omega)).explains
  continuation p left := ((accounting n).continuation p left c hc (by omega)).explains
  extension left hp := ((accounting n).extension left c hc hp hn).explains
  operand := ((accounting n).operand c hc (by omega)).explains
  integer digits h := (accounts_integer h).explains
  names :=
    (accounts_listed moves_expectName hc (by omega) fun c' _ => accounts_expectName c').explains
  expressions close := ((accounting n).arguments close hc (by omega) (by omega)).explains
  pairs he := ((accounting n).pairs c hc he (by omega)).explains

end Production

namespace Cursor

open Production (Explaining operator_of_precedence)

/-- The cursor after `k` times reading on to the end of the text. -/
def afterPrograms (cs : Source) (k : Nat) : Cursor := (fun c => c.program.2)^[k] (ofSource cs)

theorem afterPrograms_succ (cs : Source) (k : Nat) :
    afterPrograms cs (k + 1) = (afterPrograms cs k).program.2 :=
  Function.iterate_succ_apply' _ _ _

theorem afterPrograms_reaches (cs : Source) (k : Nat) :
    (ofSource cs).Reaches (afterPrograms cs k) ∧
      (afterPrograms cs k).diagnostics.size = (afterPrograms cs k).skipped := by
  induction k with
  | zero => exact ⟨.refl, rfl⟩
  | succ k ih =>
    obtain ⟨hr, hs⟩ := ih
    have ht := (afterPrograms cs k).program_trace (hr.aligned (aligned_ofSource cs))
    have hc := ht.counts
    rw [afterPrograms_succ]
    exact ⟨hr.trans ht.reaches, by omega⟩

theorem parse_eq_ok_iff {c : Cursor} (h : c.program.2.diagnostics.size = c.program.2.skipped) :
    (∃ p, c.parse = .ok p) ↔ c.program.2.skipped = 0 := by
  rw [← h, ← Array.isEmpty_iff_size_eq_zero]
  simp only [parse]
  split <;> simp [*]

/-- Each statement that is left out, at whatever depth, leaves one diagnostic, and there are no
others. They name tokens of the text and come in the order of these. -/
theorem diagnostics_of_skipped (cs : Source) :
    let e := (ofSource cs).program.2
    e.diagnostics.size = e.skipped ∧ e.diagnostics.size ≤ cs.tokens.length ∧
    (∀ c, (ofSource cs).Reaches c → ∀ n, 4 * c.tokens.length + 4 ≤ n → Explaining n c) ∧
    (∀ t : Token, .lowest < t.precedence →
      t = .symbol .lparen ∨ t = .symbol .lbracket ∨ ∃ op, t.operator? = some op) ∧
    (∀ c c', Reaches c c' → c.diagnostics.toList <+: c'.diagnostics.toList) ∧
    e.diagnostics.toList.Pairwise (·.place ≤ ·.place) ∧ (∀ d ∈ e.diagnostics, d.Names cs) ∧
    (e.diagnostics = #[] → e.skipped = 0) ∧
    (∀ k, (∃ p, (afterPrograms cs k).parse = .ok p) ↔ (afterPrograms cs (k + 1)).skipped = 0) := by
  intro e
  have ha := aligned_ofSource cs
  have ht : (ofSource cs).Trace .block e := program_trace _ ha
  have hcounts : e.diagnostics.size = e.skipped := (afterPrograms_reaches cs 1).2
  refine ⟨hcounts, ?_, fun c hr n hn => Production.explaining (hr.aligned ha) hn,
    fun t => operator_of_precedence, fun c c' hr => hr.diagnostics_prefix, ?_, ?_, fun he => ?_,
    fun k => ?_⟩
  · have hcost := ht.cost_le ha
    have hskipped : (ofSource cs).skipped = 0 := rfl
    simp only [Trace.cost, tokens_ofSource] at hcost
    omega
  · exact (ht.orderly ⟨.nil, by simp [ofSource]⟩).sorted
  · exact ht.names (follows_ofSource cs) (by simp [ofSource])
  · rw [← hcounts, he]
    rfl
  · have hs := (afterPrograms_reaches cs (k + 1)).2
    rw [afterPrograms_succ] at hs ⊢
    exact parse_eq_ok_iff hs

end Cursor

end MonkeyLang
