import MonkeyLang.Fault
import MonkeyLang.Heap
import MonkeyLang.Log

namespace MonkeyLang

/-- What an evaluation can change: the scopes, the text printed so far and the log. -/
structure World where
  heap : Heap := {}
  printed : String := ""
  events : Array Log.Event := #[]

/-- Why an evaluation has no value: the program failed, or calls nested deeper than allowed. -/
inductive Stop where
  | fault (f : Fault)
  | tooDeep
  deriving DecidableEq

abbrev Eval (α : Type) := ExceptT Stop (StateM World) α

namespace World

def openScope (w : World) (outer : Option ScopeId) : World :=
  { w with heap := w.heap.openScope outer }

def bind (w : World) (s : ScopeId) (name : String) (v : Value) : World :=
  { w with heap := w.heap.bind s name v }

def print (w : World) (text : String) : World :=
  { w with printed := w.printed ++ text }

def note (w : World) (e : Log.Event) : World :=
  { w with events := w.events.push e }

end World

namespace Eval

def run {α : Type} (x : Eval α) (w : World) : Except Stop α × World := StateT.run (ExceptT.run x) w

def fail {α : Type} (f : Fault) : Eval α := throw (.fault f)

def ofExcept {α : Type} : Except Fault α → Eval α
  | .ok a => return a
  | .error f => fail f

def lookup (s : ScopeId) (name : String) : Eval (Option Value) :=
  return (← get).heap.get? s name

def bind (s : ScopeId) (name : String) (v : Value) : Eval Unit := modify (·.bind s name v)

/-- Opens a scope inside `outer` and gives its place. -/
def openScope (outer : ScopeId) : Eval ScopeId := do
  let s := (← get).heap.size
  modify (·.openScope (some outer))
  return s

def print (text : String) : Eval Unit := modify (·.print text)

def note (e : Log.Event) : Eval Unit := modify (·.note e)

end Eval

end MonkeyLang
