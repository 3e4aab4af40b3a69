import MonkeyLang.Builtin
import MonkeyLang.Diagnostic
import MonkeyLang.Text.Blank
import MonkeyLang.Text.Quoted

namespace MonkeyLang

namespace Log

inductive Level where
  | off | error | warn | info | debug | trace
  deriving DecidableEq

def Level.name : Level → String
  | .off => "OFF"
  | .error => "ERROR"
  | .warn => "WARN"
  | .info => "INFO"
  | .debug => "DEBUG"
  | .trace => "TRACE"

/-- A higher rank shows more. -/
def Level.rank : Level → Nat
  | .off => 0
  | .error => 1
  | .warn => 2
  | .info => 3
  | .debug => 4
  | .trace => 5

def Level.all : List Level := [.off, .error, .warn, .info, .debug, .trace]

/-- The level a text names, blanks around it and the case of ASCII letters aside. A text that names
none turns the log off. -/
def Level.ofText (text : String) : Level :=
  let word := (String.ofList (Text.trim text.toList)).toUpper
  (all.find? (·.name = word)).getD .off

/-- What can be logged. -/
inductive Event where
  | lexed (t : Token)
  | refused (d : Diagnostic)
  | applied (count : Nat)
  | called (b : Builtin) (count : Nat)
  | lineRead (line : String)

/-- Only symbols and strings are logged when they are read. -/
def Event.ofToken? : Token → Option Event
  | .string text => some (.lexed (.string text))
  | .symbol s => some (.lexed (.symbol s))
  | _ => none

def Event.level : Event → Level
  | .lexed _ => .trace
  | .refused _ => .debug
  | .applied _ => .trace
  | .called _ _ => .trace
  | .lineRead _ => .debug

def Event.target : Event → String
  | .lexed _ => "monkey_walker::lexer"
  | .refused _ => "monkey_walker::parser"
  | .applied _ => "monkey_walker::evaluator"
  | .called _ _ => "monkey_walker::builtins"
  | .lineRead _ => "monkey_walker::repl"

def Event.message : Event → String
  | .lexed (.string text) => "lexed String(" ++ Text.quoted text ++ ")"
  | .lexed t => "lexed " ++ t.kind.name
  | .refused d => "parse error: " ++ d.message
  | .applied count => "applying fn with " ++ toString count ++ " arguments"
  | .called b count => "calling builtin " ++ b.name ++ " with " ++ toString count ++ " arguments"
  | .lineRead line => "read line " ++ Text.quoted (String.ofList (Text.trimEnd line.toList))

def Event.line (e : Event) : String :=
  "[" ++ e.level.name ++ " " ++ e.target ++ "] " ++ e.message ++ "\n"

/-- The log at a level. -/
def text (level : Level) (events : Array Event) : String :=
  events.foldl (fun s e => if e.level.rank ≤ level.rank then s ++ e.line else s) ""

end Log

end MonkeyLang
