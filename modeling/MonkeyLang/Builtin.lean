namespace MonkeyLang

/-- The functions every program can call by name. -/
inductive Builtin where
  | len | first | last | rest | push | puts
  deriving DecidableEq

namespace Builtin

def name : Builtin → String
  | .len => "len"
  | .first => "first"
  | .last => "last"
  | .rest => "rest"
  | .push => "push"
  | .puts => "puts"

def all : List Builtin := [.len, .first, .last, .rest, .push, .puts]

def ofName? (name : String) : Option Builtin := all.find? (·.name = name)

theorem mem_all (b : Builtin) : b ∈ all := by
  cases b <;> decide

theorem ofName?_name (b : Builtin) : ofName? b.name = some b := by
  cases b <;> decide

theorem name_of_ofName? {name : String} {b : Builtin} (h : ofName? name = some b) :
    b.name = name := by
  simpa using List.find?_some h

end Builtin

end MonkeyLang
