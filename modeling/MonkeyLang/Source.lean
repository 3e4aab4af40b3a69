import MonkeyLang.Token

namespace MonkeyLang

/-- Text that is still to be read. -/
abbrev Source := List Char

namespace Source

/-- What may stand between tokens. -/
def isLayout (c : Char) : Bool := c = ' ' || c = '\t' || c = '\n' || c = '\r'

/-- Names are made of ASCII letters and underscores; they hold no digit. -/
def isLetter (c : Char) : Bool := c.isAlpha || c = '_'

/-- A symbol of two characters goes before one of a single character. -/
def symbol? : Source → Option (Symbol × Source)
  | [] => none
  | '=' :: '=' :: rest => some (.eq, rest)
  | '!' :: '=' :: rest => some (.notEq, rest)
  | c :: rest => (Symbol.ofChar? c).map (·, rest)

/-- The token that starts with `c`, and what follows it. A string without a closing quote runs to
the end of the text. -/
def token (c : Char) (cs : Source) : Token × Source :=
  if c = '"' then
    (.string (String.ofList (cs.takeWhile (· ≠ '"'))), (cs.dropWhile (· ≠ '"')).drop 1)
  else if isLetter c then
    (.ofWord (String.ofList (c :: cs.takeWhile isLetter)), cs.dropWhile isLetter)
  else if c.isDigit then
    (.int (String.ofList (c :: cs.takeWhile Char.isDigit)), cs.dropWhile Char.isDigit)
  else
    match symbol? (c :: cs) with
    | some (s, rest) => (.symbol s, rest)
    | none => (.illegal c, cs)

/-- The next token after layout. At the end of the text it is `eof`, however often it is asked. -/
def next (cs : Source) : Token × Source :=
  match cs.dropWhile isLayout with
  | [] => (.eof, [])
  | c :: rest => token c rest

theorem symbol?_length {cs rest : Source} {s : Symbol} (h : symbol? cs = some (s, rest)) :
    rest.length < cs.length := by
  unfold symbol? at h
  split at h
  · cases h
  · cases h; simp only [List.length_cons]; omega
  · cases h; simp only [List.length_cons]; omega
  · simp only [Option.map_eq_some_iff, Prod.mk.injEq] at h
    obtain ⟨_, _, _, rfl⟩ := h
    simp

theorem length_dropWhile_le (p : Char → Bool) (cs : Source) :
    (cs.dropWhile p).length ≤ cs.length :=
  (List.dropWhile_sublist p).length_le

theorem token_length (c : Char) (cs : Source) : (token c cs).2.length ≤ cs.length := by
  unfold token
  split
  · have := length_dropWhile_le (· ≠ '"') cs
    simp only [List.length_drop]
    omega
  · split
    · exact length_dropWhile_le _ _
    · split
      · exact length_dropWhile_le _ _
      · split
        · have := symbol?_length ‹_›
          simp only [List.length_cons] at this
          exact Nat.lt_succ_iff.mp this
        · exact Nat.le_refl _

theorem next_length {cs : Source} (h : (next cs).1 ≠ .eof) : (next cs).2.length < cs.length := by
  have hb := length_dropWhile_le isLayout cs
  unfold next at h ⊢
  split at h
  · exact absurd rfl h
  · rename_i c rest hd
    have ht := token_length c rest
    rw [hd, List.length_cons] at hb
    exact Nat.lt_of_le_of_lt ht hb

theorem next_nil : next [] = (.eof, []) := rfl

/-- All tokens before the end of the text. -/
def tokens (cs : Source) : List Token :=
  if _h : (next cs).1 = .eof then [] else (next cs).1 :: tokens (next cs).2
termination_by cs.length
decreasing_by exact next_length ‹_›

theorem tokens_eq (cs : Source) :
    cs.tokens = if (next cs).1 = .eof then [] else (next cs).1 :: (next cs).2.tokens := by
  rw [tokens]
  exact dite_eq_ite

end Source

end MonkeyLang
