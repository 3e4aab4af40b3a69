import MonkeyLang.Eval
import MonkeyLang.Program.Parser

namespace MonkeyLang

namespace Repl

def greeting : String :=
  "Hello! This is the Monkey programming language!\nFeel free to type in commands\n"

def prompt : String := ">> "

/-- The answer to a line that spells no program. -/
def refusal (ds : Array Diagnostic) : String :=
  String.join (ds.toList.map fun d => "\t" ++ d.message ++ "\n")

/-- The answer to a program: its value, or why it failed. -/
def report (depth : Nat) (s : ScopeId) (p : Program) : Eval String :=
  tryCatch (return (← p.eval depth s).text ++ "\n") fun
    | .fault f => return "ERROR: " ++ f.message ++ "\n"
    | .tooDeep => throw .tooDeep

/-- The answer to a line. A line with diagnostics is not evaluated. -/
def answer (depth : Nat) (s : ScopeId) (line : String) : Eval String := do
  Eval.note (.lineRead line)
  let (p, c) := (Cursor.ofSource line.toList).program
  c.events.forM Eval.note
  if c.diagnostics.isEmpty then report depth s p else return refusal c.diagnostics

/-- What a line led to: the text that its program printed, and the answer to it. -/
structure Turn where
  printed : String
  answer : String

def turn (depth : Nat) (s : ScopeId) (line : String) (w : World) : Except Stop Turn × World :=
  let (result, w) := (answer depth s line).run { w with printed := "" }
  (result.map fun a => ⟨w.printed, a⟩, w)

/-- Why a session ended. -/
inductive Ending where
  | endOfInput
  | notText
  | tooDeep
  deriving DecidableEq

def Ending.error? : Ending → Option String
  | .endOfInput => none
  | .notText => some "stream did not contain valid UTF-8"
  | .tooDeep => some "calls are nested too deep"

/-- What a session has written: prompts and answers, what its programs printed, and all that a
terminal shows, where what programs print stands between prompts and answers. -/
structure Transcript where
  shown : String := ""
  printed : String := ""
  console : String := greeting

namespace Transcript

def prompted (t : Transcript) : Transcript :=
  { t with
    shown := t.shown ++ prompt
    console := t.console ++ prompt }

def answered (t : Transcript) (a : Turn) : Transcript where
  shown := t.shown ++ a.answer
  printed := t.printed ++ a.printed
  console := t.console ++ a.printed ++ a.answer

end Transcript

structure Session extends Transcript where
  ending : Ending
  world : World

/-- Takes a line off an input. A line break belongs to the line that it ends, so only at the end of
the input a line is empty. -/
def readLine : List UInt8 → List UInt8 × List UInt8
  | [] => ([], [])
  | b :: bs =>
      if b = 10 then ([b], bs)
      else
        match readLine bs with
        | (line, rest) => (b :: line, rest)

theorem readLine_append (bs : List UInt8) : (readLine bs).1 ++ (readLine bs).2 = bs := by
  induction bs with
  | nil => rfl
  | cons b bs ih =>
      unfold readLine
      split
      · rfl
      · exact congrArg (b :: ·) ih

def decode (line : List UInt8) : Option String := String.fromUTF8? ⟨line.toArray⟩

/-- Prompts for a line, reads it and answers it, again and again in one scope, until the input ends
or a line cannot be answered. -/
def play (depth : Nat) (s : ScopeId) (t : Transcript) (w : World) (input : List UInt8) : Session :=
  match _h : readLine input with
  | ([], _) => { t.prompted with ending := .endOfInput, world := w }
  | (b :: bs, rest) =>
      match decode (b :: bs) with
      | none => { t.prompted with ending := .notText, world := w }
      | some line =>
          match turn depth s line w with
          | (.ok a, w) => play depth s (t.prompted.answered a) w rest
          | (.error _, w) => { t.prompted with ending := .tooDeep, world := w }
termination_by input.length
decreasing_by
  have hl : b :: bs ++ rest = input := by rw [← readLine_append input, _h]
  rw [← hl, List.length_append, List.length_cons]
  omega

/-- A world with a single scope, and that scope. -/
def fresh : World × ScopeId := ({ heap := Heap.openScope {} none }, 0)

def session (depth : Nat) (input : List UInt8) : Session :=
  play depth fresh.2 {} fresh.1 input

/-- What is said about a session that ended early. -/
def stopped (e : String) : String := "repl stopped: " ++ e ++ "\n"

end Repl

end MonkeyLang
