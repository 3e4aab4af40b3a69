import MonkeyLang.Program.Text
import MonkeyLang.Value

namespace MonkeyLang

open Text (commas)

def HashKey.text : HashKey → String
  | .string text => text
  | .int value => toString value.toInt
  | .bool value => if value then "true" else "false"

def HashKey.value : HashKey → Value
  | .string text => .string text
  | .int value => .int value
  | .bool value => .bool value

namespace Value

mutual

def text : Value → String
  | .null => "null"
  | .int value => toString value.toInt
  | .bool value => if value then "true" else "false"
  | .string s => s
  | .array items => "[" ++ commas (itemTexts items) ++ "]"
  | .hash entries => "\x7b" ++ commas (entryTexts entries) ++ "\x7d"
  | .builtin _ => "builtin function"
  | .function params body _ => signature params ++ blockText body
  | .returned v => text v

def itemTexts : List Value → List String
  | [] => []
  | v :: vs => text v :: itemTexts vs

def entryTexts : List (HashKey × Value) → List String
  | [] => []
  | (k, v) :: es => (k.text ++ ": " ++ text v) :: entryTexts es

end

theorem itemTexts_eq_map (vs : List Value) : itemTexts vs = vs.map text := by
  induction vs with
  | nil => rfl
  | cons v vs ih => simp [itemTexts, ih]

theorem entryTexts_eq_map (es : List (HashKey × Value)) :
    entryTexts es = es.map fun e => e.1.text ++ ": " ++ text e.2 := by
  induction es with
  | nil => rfl
  | cons e es ih => simp [entryTexts, ih]

end Value

end MonkeyLang
