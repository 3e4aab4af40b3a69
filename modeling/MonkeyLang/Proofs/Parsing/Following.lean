import MonkeyLang.Proofs.Lexing.Stream
import MonkeyLang.Proofs.Parsing.Progress

namespace MonkeyLang

namespace Cursor

/-- The two tokens in sight are the ones at the cursor's place in the text, and exactly the tokens
up to them have been taken from it. -/
structure Follows (cs : Source) (c : Cursor) : Prop where
  cur : c.cur = cs.nth c.place
  peek : c.peek = cs.nth (c.place + 1)
  unread : c.unread = cs.after (c.place + 2)

variable {cs : Source} {c c₁ : Cursor}

theorem follows_ofSource (cs : Source) : (ofSource cs).Follows cs := ⟨rfl, rfl, rfl⟩

theorem Follows.advance (h : c.Follows cs) : c.advance.Follows cs where
  cur := h.peek
  peek := congrArg (fun r => (Source.next r).1) h.unread
  unread := by
    rw [show c.advance.place + 2 = c.place + 2 + 1 from rfl, Source.after_succ, ← h.unread]
    rfl

theorem Follows.step (h : c.Follows cs) (hs : c.Step c₁) : c₁.Follows cs := by
  cases hs with
  | advance => exact h.advance
  | report d => exact ⟨h.cur, h.peek, h.unread⟩
  | skip => exact ⟨h.cur, h.peek, h.unread⟩

theorem Reaches.follows (hr : c.Reaches c₁) (h : c.Follows cs) : c₁.Follows cs := by
  induction hr with
  | refl => exact h
  | tail _ hs ih => exact ih.step hs

theorem Reaches.place_le (hr : c.Reaches c₁) : c.place ≤ c₁.place := by
  induction hr with
  | refl => exact Nat.le_refl _
  | tail _ hs ih =>
    cases hs with
    | advance => exact Nat.le_succ_of_le ih
    | report d => exact ih
    | skip => exact ih

theorem Reaches.diagnostics_prefix (hr : c.Reaches c₁) :
    c.diagnostics.toList <+: c₁.diagnostics.toList := by
  induction hr with
  | refl => exact List.prefix_rfl
  | @tail c₁ _ _ hs ih =>
    cases hs with
    | advance => exact ih
    | report d =>
      rw [show (c₁.report d).diagnostics = c₁.diagnostics.push d from rfl, Array.toList_push]
      exact ih.trans (List.prefix_append _ _)
    | skip => exact ih

end Cursor

end MonkeyLang
