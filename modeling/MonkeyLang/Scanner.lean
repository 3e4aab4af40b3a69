import MonkeyLang.Source

namespace MonkeyLang

/-- The byte at a place of a text, which is zero past the end. -/
def byteAt (text : String) (i : Nat) : UInt8 := text.toByteArray.data[i]?.getD 0

/-- The text between two places, counted in bytes. There is none if a character would be cut. -/
def slice? (text : String) (start stop : Nat) : Option String :=
  if start ≤ stop ∧ String.Pos.Raw.IsValid text ⟨start⟩ ∧ String.Pos.Raw.IsValid text ⟨stop⟩ then
    some (String.Pos.Raw.extract text ⟨start⟩ ⟨stop⟩)
  else
    none

/-- A place in the bytes of a text. The zero byte is there at the end of the text, and may be
anywhere in it. -/
structure Scanner where
  text : String
  position : Nat
  readPosition : Nat
  byte : UInt8
  position_le : position ≤ text.utf8ByteSize
  readPosition_eq : readPosition = position + 1
  byte_eq : byte = byteAt text position

namespace Scanner

theorem byteAt_min (text : String) (i : Nat) :
    byteAt text (min i text.utf8ByteSize) = byteAt text i := by
  rcases Nat.le_total i text.utf8ByteSize with h | h
  · rw [Nat.min_eq_left h]
  · have hi : text.toByteArray.data.size ≤ i := h
    have hs : text.toByteArray.data.size ≤ text.utf8ByteSize := Nat.le_refl _
    rw [Nat.min_eq_right h, byteAt, byteAt, Array.getElem?_eq_none hs, Array.getElem?_eq_none hi]

def load (text : String) (i : Nat) : Scanner where
  text
  position := min i text.utf8ByteSize
  readPosition := min (i + 1) (text.utf8ByteSize + 1)
  byte := byteAt text i
  position_le := Nat.min_le_right ..
  readPosition_eq := Nat.succ_min_succ ..
  byte_eq := (byteAt_min text i).symm

def ofString (text : String) : Scanner := load text 0

def readByte (s : Scanner) : Scanner := load s.text s.readPosition

def atEnd (s : Scanner) : Bool := s.text.utf8ByteSize ≤ s.position

/-- The current byte, as if it were a character of its own. -/
def cur (s : Scanner) : Char := Char.ofUInt8 s.byte

def peek (s : Scanner) : Char := Char.ofUInt8 (byteAt s.text s.readPosition)

theorem position_readByte {s : Scanner} (h : s.atEnd = false) :
    s.readByte.position = s.position + 1 := by
  have hlt : s.position < s.text.utf8ByteSize := Nat.lt_of_not_le (of_decide_eq_false h)
  show min s.readPosition s.text.utf8ByteSize = _
  rw [s.readPosition_eq, Nat.min_eq_left hlt]

def readWhile (p : Char → Bool) (s : Scanner) : Scanner :=
  if _h : s.atEnd = false ∧ p s.cur then readWhile p s.readByte else s
termination_by s.text.utf8ByteSize - s.position
decreasing_by
  have hlt : s.position < s.text.utf8ByteSize := Nat.lt_of_not_le (of_decide_eq_false _h.1)
  rw [position_readByte _h.1]
  exact Nat.sub_succ_lt_self _ _ hlt

/-- A symbol, read up to its last byte. -/
def symbol? (s : Scanner) : Option (Symbol × Scanner) :=
  match s.cur with
  | '=' => some (if s.peek = '=' then (.eq, s.readByte) else (.assign, s))
  | '!' => some (if s.peek = '=' then (.notEq, s.readByte) else (.bang, s))
  | c => (Symbol.ofChar? c).map (·, s)

/-- The text from one place up to another. -/
def upTo? (s e : Scanner) : Option String := slice? s.text s.position e.position

/-- The first character of what is left. -/
def char? (s : Scanner) : Option Char :=
  (slice? s.text s.position s.text.utf8ByteSize).map (·.toList.head?.getD '\uFFFD')

/-- The token that starts here. A string without a closing quote runs to the end of the text. -/
def token? (s : Scanner) : Option (Token × Scanner) :=
  match s.symbol? with
  | some (t, e) => some (.symbol t, e.readByte)
  | none =>
    if s.cur = '"' then
      let first := s.readByte
      let e := first.readWhile (· ≠ '"')
      (slice? s.text (s.position + 1) e.position).map (.string ·, e.readByte)
    else if Source.isLetter s.cur then
      let e := s.readWhile Source.isLetter
      (s.upTo? e).map (.ofWord ·, e)
    else if s.cur.isDigit then
      let e := s.readWhile Char.isDigit
      (s.upTo? e).map (.int ·, e)
    else
      s.char?.map fun c => (.illegal c, Nat.repeat readByte c.utf8Size s)

/-- The next token after layout. There is none only where a character would be cut. -/
def next? (s : Scanner) : Option (Token × Scanner) :=
  let s := s.readWhile Source.isLayout
  if s.atEnd then some (.eof, s) else s.token?

/-- The token that is read after `n` others. -/
def nth? : Scanner → Nat → Option Token
  | s, 0 => s.next?.map (·.1)
  | s, n + 1 => do (← s.next?).2.nth? n

end Scanner

end MonkeyLang
