namespace MonkeyLang

/-- Operators and delimiters. -/
inductive Symbol where
  | assign | plus | minus | slash | asterisk | bang | lt | gt | eq | notEq
  | comma | semicolon | colon
  | lparen | rparen | lbrace | rbrace | lbracket | rbracket
  deriving DecidableEq

def Symbol.text : Symbol → String
  | .assign => "="
  | .plus => "+"
  | .minus => "-"
  | .slash => "/"
  | .asterisk => "*"
  | .bang => "!"
  | .lt => "<"
  | .gt => ">"
  | .eq => "=="
  | .notEq => "!="
  | .comma => ","
  | .semicolon => ";"
  | .colon => ":"
  | .lparen => "("
  | .rparen => ")"
  | .lbrace => "\x7b"
  | .rbrace => "\x7d"
  | .lbracket => "["
  | .rbracket => "]"

def Symbol.name : Symbol → String
  | .assign => "Assign"
  | .plus => "Plus"
  | .minus => "Minus"
  | .slash => "Slash"
  | .asterisk => "Asterisk"
  | .bang => "Bang"
  | .lt => "LT"
  | .gt => "GT"
  | .eq => "Eq"
  | .notEq => "NotEq"
  | .comma => "Comma"
  | .semicolon => "Semicolon"
  | .colon => "Colon"
  | .lparen => "LParen"
  | .rparen => "RParen"
  | .lbrace => "LBrace"
  | .rbrace => "RBrace"
  | .lbracket => "LBracket"
  | .rbracket => "RBracket"

/-- The symbol a character is by itself. -/
def Symbol.ofChar? : Char → Option Symbol
  | '=' => some .assign
  | '+' => some .plus
  | '-' => some .minus
  | '/' => some .slash
  | '*' => some .asterisk
  | '!' => some .bang
  | '<' => some .lt
  | '>' => some .gt
  | ',' => some .comma
  | ';' => some .semicolon
  | ':' => some .colon
  | '(' => some .lparen
  | ')' => some .rparen
  | '{' => some .lbrace
  | '}' => some .rbrace
  | '[' => some .lbracket
  | ']' => some .rbracket
  | _ => none

inductive Keyword where
  | elseKey | falseKey | fnKey | ifKey | letKey | returnKey | trueKey
  deriving DecidableEq

def Keyword.text : Keyword → String
  | .elseKey => "else"
  | .falseKey => "false"
  | .fnKey => "fn"
  | .ifKey => "if"
  | .letKey => "let"
  | .returnKey => "return"
  | .trueKey => "true"

def Keyword.name : Keyword → String
  | .elseKey => "Else"
  | .falseKey => "False"
  | .fnKey => "Function"
  | .ifKey => "If"
  | .letKey => "Let"
  | .returnKey => "Return"
  | .trueKey => "True"

def Keyword.all : List Keyword :=
  [.elseKey, .falseKey, .fnKey, .ifKey, .letKey, .returnKey, .trueKey]

def Keyword.ofText? (text : String) : Option Keyword :=
  all.find? (·.text = text)

theorem Keyword.mem_all (k : Keyword) : k ∈ all := by
  cases k <;> decide

theorem Keyword.ofText?_text (k : Keyword) : ofText? k.text = some k := by
  cases k <;> decide

theorem Keyword.text_of_ofText? {text : String} {k : Keyword} (h : ofText? text = some k) :
    k.text = text := by
  simpa using List.find?_some h

inductive Token where
  | illegal (c : Char)
  | eof
  | ident (name : String)
  | int (digits : String)
  | string (text : String)
  | symbol (s : Symbol)
  | keyword (k : Keyword)
  deriving DecidableEq

/-- What a token is, without what it carries. -/
inductive Token.Kind where
  | illegal
  | eof
  | ident
  | int
  | string
  | symbol (s : Symbol)
  | keyword (k : Keyword)
  deriving DecidableEq

def Token.Kind.name : Kind → String
  | .illegal => "Illegal"
  | .eof => "Eof"
  | .ident => "Ident"
  | .int => "Int"
  | .string => "String"
  | .symbol s => s.name
  | .keyword k => k.name

def Token.kind : Token → Kind
  | .illegal _ => .illegal
  | .eof => .eof
  | .ident _ => .ident
  | .int _ => .int
  | .string _ => .string
  | .symbol s => .symbol s
  | .keyword k => .keyword k

/-- The text a token was read from, without the quotes of a string. -/
def Token.literal : Token → String
  | .illegal c => c.toString
  | .eof => ""
  | .ident name => name
  | .int digits => digits
  | .string text => text
  | .symbol s => s.text
  | .keyword k => k.text

/-- A word is a keyword or a name. -/
def Token.ofWord (word : String) : Token :=
  match Keyword.ofText? word with
  | some k => .keyword k
  | none => .ident word

theorem Token.literal_ofWord (word : String) : (ofWord word).literal = word := by
  unfold ofWord
  split
  · exact Keyword.text_of_ofText? ‹_›
  · rfl

end MonkeyLang
