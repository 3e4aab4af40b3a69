import MonkeyLang.Value

namespace MonkeyLang

namespace Value

mutual

/-- Functions are equal if they are written alike and captured the very same scope, whatever the
scope binds. The order of the entries of a hash does not matter. -/
def equals : Value → Value → Bool
  | .null, .null => true
  | .int m, .int n => m = n
  | .bool a, .bool b => a = b
  | .string s, .string t => s = t
  | .array xs, .array ys => equalItems xs ys
  | .hash es, .hash es' => es.length = es'.length && equalEntries es es'
  | .builtin b, .builtin b' => b.name = b'.name
  | .function ps body scope, .function ps' body' scope' =>
      scope = scope' && ps = ps' && body = body'
  | .returned v, .returned v' => v.equals v'
  | _, _ => false

def equalItems : List Value → List Value → Bool
  | [], [] => true
  | x :: xs, y :: ys => x.equals y && equalItems xs ys
  | _, _ => false

/-- Each entry has its equal under the same key of the other table. -/
def equalEntries : List (HashKey × Value) → Table HashKey Value → Bool
  | [], _ => true
  | (k, v) :: es, t => ((t.get? k).any fun w => v.equals w) && equalEntries es t

end

end Value

end MonkeyLang
