namespace MonkeyLang.Text

/-- Closed ranges of code points. -/
abbrev Ranges := List (Nat × Nat)

namespace Ranges

def contains (rs : Ranges) (c : Char) : Bool :=
  rs.any fun r => r.1 ≤ c.toNat && c.toNat ≤ r.2

/-- The ranges are ascending, and there is a gap between neighbours. -/
def apart : Ranges → Bool
  | [] => true
  | [r] => r.1 ≤ r.2
  | r :: s :: rs => r.1 ≤ r.2 && r.2 + 1 < s.1 && apart (s :: rs)

def count : Ranges → Nat
  | [] => 0
  | r :: rs => r.2 + 1 - r.1 + count rs

end Ranges

end MonkeyLang.Text
