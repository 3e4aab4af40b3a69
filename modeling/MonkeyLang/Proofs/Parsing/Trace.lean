import MonkeyLang.Proofs.Parsing.Following

namespace MonkeyLang

/-- The diagnostic is one that can be given at the cursor: it names the current token, or the one
after it. -/
inductive Diagnostic.Fits (c : Cursor) : Diagnostic → Prop
  | noOperand : Fits c ⟨c.place, .noOperand c.cur.kind⟩
  | badInteger {digits : String} (h : c.cur = .int digits) : Fits c ⟨c.place, .badInteger digits⟩
  | unexpected {k : Token.Kind} (h : c.peek.kind ≠ k) :
      Fits c ⟨c.place + 1, .unexpected k c.peek.kind⟩

/-- The diagnostic says of the token at its place what that token is. -/
def Diagnostic.Names (cs : Source) (d : Diagnostic) : Prop :=
  match d.reason with
  | .unexpected expected got => got = (cs.nth d.place).kind ∧ expected ≠ got
  | .noOperand kind => kind = (cs.nth d.place).kind
  | .badInteger digits => cs.nth d.place = .int digits

/-- A part of a statement, or statements up to the end of their block. -/
inductive Portion where
  | phrase
  | block

namespace Cursor

/-- How a cursor gets over a portion of a text. In a block a statement is kept, or it is dropped
with one diagnostic of its own; the blocks inside it have theirs. -/
inductive Trace : Portion → Cursor → Cursor → Prop
  | refl {q : Portion} {c : Cursor} : Trace q c c
  | advance {c c₁ : Cursor} (h : Trace .phrase c c₁) : Trace .phrase c c₁.advance
  | block {c c₁ c₂ : Cursor} (h : Trace .phrase c c₁) (he : c₁.cur ≠ .eof)
      (hb : Trace .block c₁.advance c₂) : Trace .phrase c c₂
  | keep {c c₁ c₂ : Cursor} (h : Trace .block c c₁) (he : c₁.cur ≠ .eof)
      (hs : Trace .phrase c₁ c₂) : Trace .block c c₂.advance
  | drop {c c₁ c₂ : Cursor} {d : Diagnostic} (h : Trace .block c c₁) (he : c₁.cur ≠ .eof)
      (hs : Trace .phrase c₁ c₂) (hd : d.Fits c₂) : Trace .block c (c₂.report d).skip.advance

namespace Trace

variable {q : Portion} {c c₁ c₂ : Cursor} {cs : Source}

theorem trans (h : Trace q c c₁) (h' : Trace q c₁ c₂) : Trace q c c₂ := by
  induction h' with
  | refl => exact h
  | advance _ ih => exact .advance (ih h)
  | block _ he hb ih _ => exact .block (ih h) he hb
  | keep _ he hs ih _ => exact .keep (ih h) he hs
  | drop _ he hs hd ih _ => exact .drop (ih h) he hs hd

theorem reaches (h : Trace q c c₁) : c.Reaches c₁ := by
  induction h with
  | refl => exact .refl
  | advance _ ih => exact ih.tail .advance
  | block _ _ _ ih ihb => exact ih.trans (ihb.head .advance)
  | keep _ _ _ ih ihs => exact ih.trans (ihs.tail .advance)
  | drop _ _ _ _ ih ihs =>
    exact ih.trans (((ihs.tail (.report _)).tail .skip).tail .advance)

theorem counts (h : Trace q c c₁) :
    c₁.diagnostics.size + c.skipped = c.diagnostics.size + c₁.skipped := by
  induction h with
  | refl => rfl
  | advance _ ih => exact ih
  | block _ _ _ ih ihb =>
    simp only [skipped_advance, diagnostics_advance] at ihb
    omega
  | keep _ _ _ ih ihs =>
    simp only [skipped_advance, diagnostics_advance]
    omega
  | drop _ _ _ _ ih ihs =>
    simp only [skipped_advance, diagnostics_advance, skipped_skip, diagnostics_skip, report,
      Array.size_push]
    omega

/-- The statements left out so far and the tokens that can still pay for others. -/
def cost : Portion → Cursor → Nat
  | .phrase, c => c.skipped + max 1 c.tokens.length
  | .block, c => c.skipped + c.tokens.length

theorem cost_le (h : Trace q c c₁) (hc : c.Aligned) : cost q c₁ ≤ cost q c := by
  induction h with
  | refl => exact Nat.le_refl _
  | @advance _ c₁ h ih =>
    have hl := (h.reaches.aligned hc).length_advance
    have hi := ih hc
    simp only [cost, skipped_advance] at hi ⊢
    omega
  | @block _ c₁ _ h he hb ih ihb =>
    have ha := h.reaches.aligned hc
    have hl := ha.length_advance
    have hpos := tokens_length_pos he
    have hi := ih hc
    have hib := ihb ha.advance
    simp only [cost, skipped_advance] at hi hib ⊢
    omega
  | @keep _ c₁ c₂ h he hs ih ihs =>
    have ha := h.reaches.aligned hc
    have hl := (hs.reaches.aligned ha).length_advance
    have hpos := tokens_length_pos he
    have hi := ih hc
    have his := ihs ha
    simp only [cost, skipped_advance] at hi his ⊢
    omega
  | @drop _ c₁ c₂ d h he hs hd ih ihs =>
    have ha := h.reaches.aligned hc
    have hl : (c₂.report d).skip.advance.tokens.length = c₂.tokens.length - 1 :=
      (hs.reaches.aligned ha).length_advance
    have hpos := tokens_length_pos he
    have hi := ih hc
    have his := ihs ha
    -- Inside the statement its first token was kept back, and that pays for leaving it out.
    simp only [cost, skipped_advance, skipped_skip] at hi his ⊢
    simp only [report] at hl ⊢
    omega

end Trace

/-- The diagnostics stand in the order of the tokens they name, all of them behind the cursor. -/
structure Orderly (c : Cursor) : Prop where
  sorted : c.diagnostics.toList.Pairwise (·.place ≤ ·.place)
  behind : ∀ d ∈ c.diagnostics, d.place ≤ c.place

theorem Orderly.advance {c : Cursor} (h : c.Orderly) : c.advance.Orderly :=
  ⟨h.sorted, fun d hd => Nat.le_succ_of_le (h.behind d hd)⟩

theorem Orderly.drop {c : Cursor} {d : Diagnostic} (h : c.Orderly) (hd : d.Fits c) :
    (c.report d).skip.advance.Orderly where
  sorted := by
    have hplace : c.place ≤ d.place := by cases hd <;> simp
    show (c.diagnostics.push d).toList.Pairwise _
    rw [Array.toList_push, List.pairwise_append]
    refine ⟨h.sorted, List.pairwise_singleton _ _, fun d₁ h₁ d₂ h₂ => ?_⟩
    rw [List.mem_singleton.mp h₂]
    exact Nat.le_trans (h.behind d₁ (Array.mem_toList_iff.mp h₁)) hplace
  behind d₁ h₁ := by
    -- It may name the token after the current one, which the cursor is at by now.
    have hplace : d.place ≤ c.place + 1 := by cases hd <;> simp
    rcases Array.mem_push.mp h₁ with h₁ | rfl
    · exact Nat.le_succ_of_le (h.behind d₁ h₁)
    · exact hplace

theorem Trace.orderly {q : Portion} {c c₁ : Cursor} (h : Trace q c c₁) (hc : c.Orderly) :
    c₁.Orderly := by
  induction h with
  | refl => exact hc
  | advance _ ih => exact (ih hc).advance
  | block _ _ _ ih ihb => exact ihb (ih hc).advance
  | keep _ _ _ ih ihs => exact (ihs (ih hc)).advance
  | drop _ _ _ hd ih ihs => exact (ihs (ih hc)).drop hd

end Cursor

theorem Diagnostic.Fits.names {cs : Source} {c : Cursor} {d : Diagnostic} (hd : d.Fits c)
    (hc : c.Follows cs) : d.Names cs := by
  cases hd with
  | noOperand => exact congrArg Token.kind hc.cur
  | badInteger h => exact hc.cur.symm.trans h
  | unexpected h => exact ⟨congrArg Token.kind hc.peek, h.symm⟩

theorem Cursor.Trace.names {cs : Source} {q : Portion} {c c₁ : Cursor} (h : Trace q c c₁)
    (hc : c.Follows cs) (hn : ∀ d ∈ c.diagnostics, d.Names cs) :
    ∀ d ∈ c₁.diagnostics, d.Names cs := by
  induction h with
  | refl => exact hn
  | advance _ ih => exact ih hc hn
  | block h _ _ ih ihb => exact ihb (h.reaches.follows hc).advance (ih hc hn)
  | keep h _ _ ih ihs => exact ihs (h.reaches.follows hc) (ih hc hn)
  | @drop _ c₁ c₂ d h _ hs hd ih ihs =>
    have h₁ := h.reaches.follows hc
    intro d' hd'
    rcases Array.mem_push.mp hd' with hd' | rfl
    · exact ihs h₁ (ih hc hn) d' hd'
    · exact hd.names (hs.reaches.follows h₁)

end MonkeyLang
