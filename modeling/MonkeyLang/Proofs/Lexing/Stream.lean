import MonkeyLang.Proofs.Lexing

namespace MonkeyLang

namespace Source

/-- What is left of a text after its first `n` tokens. -/
def after : Source → Nat → Source
  | cs, 0 => cs
  | cs, n + 1 => (next cs).2.after n

/-- The token at a place, counted from the start of the text. The end is at every place past the
last token. -/
def nth (cs : Source) (n : Nat) : Token := (next (cs.after n)).1

theorem after_succ (cs : Source) (n : Nat) : cs.after (n + 1) = (next (cs.after n)).2 := by
  induction n generalizing cs with
  | zero => rfl
  | succ n ih => exact ih (next cs).2

theorem after_nil (n : Nat) : after [] n = [] := by
  induction n with
  | zero => rfl
  | succ n ih => exact ih

theorem nth_eq_getD (cs : Source) (n : Nat) : cs.nth n = cs.tokens[n]?.getD .eof := by
  induction n generalizing cs with
  | zero =>
    rw [tokens_eq]
    split
    · assumption
    · rfl
  | succ n ih =>
    have hn : cs.nth (n + 1) = (next cs).2.nth n := rfl
    rw [hn, tokens_eq]
    split
    · rename_i h
      rw [rest_of_next_eof h, nth, after_nil, next_nil]
      rfl
    · rw [ih, List.getElem?_cons_succ]

end Source

end MonkeyLang
