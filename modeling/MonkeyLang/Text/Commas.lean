namespace MonkeyLang.Text

/-- The items with a comma and a blank between neighbours. -/
def commas : List String → String
  | [] => ""
  | [s] => s
  | s :: t :: r => s ++ ", " ++ commas (t :: r)

@[simp] theorem commas_nil : commas [] = "" := rfl

@[simp] theorem commas_singleton (s : String) : commas [s] = s := rfl

@[simp] theorem commas_cons_cons (s t : String) (r : List String) :
    commas (s :: t :: r) = s ++ ", " ++ commas (t :: r) := rfl

end MonkeyLang.Text
