import Mathlib
import MonkeyLang.Proofs.Evaluation.Arithmetic
import MonkeyLang.Proofs.Evaluation.Calls
import MonkeyLang.Repl

namespace MonkeyLang

open Eval

namespace Mapping

/-- The loop is a function that is bound, and calls itself, in the scope of each call of `map`. -/
def functionText : String :=
  "let map = fn(arr, f) \x7b\n" ++
  "  let iter = fn(arr, accumulated) \x7b\n" ++
  "    if (len(arr) == 0) \x7b accumulated \x7d else \x7b " ++
  "iter(rest(arr), push(accumulated, f(first(arr)))); \x7d\n" ++
  "  \x7d;\n" ++
  "  iter(arr, []);\n" ++
  "\x7d;\n"

def text : String := functionText ++ "map(xs, fn(x) \x7b x * c \x7d);"

def isEmpty : Expr := .binary (.call (.ident "len") [.ident "arr"]) .eq (.int 0)

def shorter : Expr := .call (.ident "rest") [.ident "arr"]

def applied : Expr := .call (.ident "f") [.call (.ident "first") [.ident "arr"]]

def longer : Expr := .call (.ident "push") [.ident "accumulated", applied]

def loopBody : Block :=
  [.expr (.cond isEmpty [.expr (.ident "accumulated")]
    (some [.expr (.call (.ident "iter") [shorter, longer])]))]

def body : Block :=
  [.bind "iter" (.fn ["arr", "accumulated"] loopBody),
    .expr (.call (.ident "iter") [.ident "arr", .array []])]

def scaled : Block := [.expr (.binary (.ident "x") .asterisk (.ident "c"))]

def program : Program :=
  [.bind "map" (.fn ["arr", "f"] body), .expr (.call (.ident "map") [.ident "xs", .fn ["x"] scaled])]

theorem text_read : Program.ofSource text.toList = .ok program := by
  decide +kernel

def loop (m : ScopeId) : Value := .function ["arr", "accumulated"] loopBody m

/-- From the scope `t` one finds the builtins, the function that the call of `map` with the scope `m`
applies, and the loop of this call. -/
structure Around (h : Heap) (t m : ScopeId) (f : Value) : Prop where
  function : h.Means t "f" f
  loop : h.Means t "iter" (loop m)
  builtin (b : Builtin) : h.Means t b.name (.builtin b)

/-- In the scope `t` of a call of the loop. -/
structure Inside (h : Heap) (t m : ScopeId) (f : Value) (xs ys : List Value) : Prop
    extends Around h t m f where
  items : h.Means t "arr" (.array xs)
  accumulated : h.Means t "accumulated" (.array ys)

/-- In heaps that go on from `h`, with calls nested at most `k` deep, the function maps each of the
values as `op` does. -/
def Maps (k : Nat) (h : Heap) (params : List String) (b : Block) (g : ScopeId)
    (op : Value → Value) (xs : List Value) : Prop :=
  ∀ v ∈ xs, v.isReturned = false ∧ (op v).isReturned = false ∧ ∀ depth, k ≤ depth →
    ∀ w : World, h.Preserves w.heap → ∃ w', (apply depth params b g [v]).run w = (.ok (op v), w')

section

variable {h h' : Heap} {t m g : ScopeId} {f v : Value} {w w₁ : World} {depth k : Nat}
  {params : List String} {b : Block} {xs ys : List Value} {op : Value → Value}

theorem Around.preserved (ha : Around h t m f) (hp : h.Preserves h') : Around h' t m f where
  function := ha.function.preserved hp
  loop := ha.loop.preserved hp
  builtin b := (ha.builtin b).preserved hp

theorem Inside.preserved (hi : Inside h t m f xs ys) (hp : h.Preserves h') :
    Inside h' t m f xs ys where
  toAround := hi.toAround.preserved hp
  items := hi.items.preserved hp
  accumulated := hi.accumulated.preserved hp

theorem Maps.preserved (hm : Maps k h params b g op xs) (hp : h.Preserves h') :
    Maps k h' params b g op xs := by
  intro v hv
  obtain ⟨hs, ho, happly⟩ := hm v hv
  exact ⟨hs, ho, fun depth hd w hw => happly depth hd w (hp.trans hw)⟩

theorem Around.inside (ha : Around w.heap m m f) (xs ys : List Value) :
    Inside (w.enter m (["arr", "accumulated"].zip [.array xs, .array ys])).heap w.heap.size m f
      xs ys where
  function := w.means_enter_free (by simp [Table.keys]) ha.function
  loop := w.means_enter_free (by simp [Table.keys]) ha.loop
  builtin b := w.means_enter_free (by cases b <;> simp [Table.keys, Builtin.name]) (ha.builtin b)
  items := w.means_enter_bound ⟨[], [_], rfl, by simp [Table.keys]⟩
  accumulated := w.means_enter_bound ⟨[_], [], rfl, List.not_mem_nil⟩

theorem Inside.builtin_gives (hi : Inside w.heap t m f xs ys) {b : Builtin}
    (h : b.result [.array xs] = .ok v) (hv : v.isReturned = false) :
    (Expr.call (.ident b.name) [.ident "arr"]).Gives (apply depth) t w v
      ((w.note (.called b 1)).print (b.printed [.array xs])) :=
  Expr.gives_builtin_call ((hi.builtin b).gives rfl) (.cons (hi.items.gives rfl) (.nil w)) h hv

theorem isEmpty_gives (depth : Nat) (hi : Inside w.heap t m f xs ys) :
    ∃ w', isEmpty.Gives (apply depth) t w (.bool (Int64.ofNat xs.length = 0)) w' :=
  ⟨_, Expr.gives_binary (hi.builtin_gives (b := .len) rfl rfl) ⟨rfl, rfl⟩ rfl rfl⟩

theorem shorter_gives (depth : Nat) (hi : Inside w.heap t m f xs ys) :
    ∃ w', shorter.Gives (apply depth) t w (.array xs.tail) w' :=
  ⟨_, hi.builtin_gives (b := .rest) rfl rfl⟩

theorem applied_gives (hi : Inside w.heap t m (.function params b g) (v :: xs) ys)
    (hf : Maps k w.heap params b g op (v :: xs)) (hd : k ≤ depth) :
    ∃ w', applied.Gives (apply depth) t w (op v) w' := by
  obtain ⟨hv, ho, happly⟩ := hf v (List.mem_cons_self ..)
  let w₁ := (w.note (.called .first 1)).print ""
  have hfirst : (Expr.call (.ident "first") [.ident "arr"]).Gives (apply depth) t w v w₁ :=
    hi.builtin_gives (b := .first) rfl hv
  obtain ⟨w', hw'⟩ := happly depth hd (w₁.note (.applied 1)) fun _ _ hs => hs
  exact ⟨w', Expr.gives_call (hi.function.gives rfl) (.cons hfirst (.nil w₁)) hw' ho⟩

theorem arguments_give (hi : Inside w.heap t m (.function params b g) (v :: xs) ys)
    (hf : Maps k w.heap params b g op (v :: xs)) (hd : k ≤ depth) :
    ∃ w', ExprsGive (apply depth) t [shorter, longer] w [.array xs, .array (ys ++ [op v])] w' := by
  obtain ⟨w₁, hrest⟩ := shorter_gives depth hi
  have hp := hrest.preserves (apply_preserves depth) rfl
  have hi₁ := hi.preserved hp
  obtain ⟨w₂, happlied⟩ := applied_gives hi₁ (hf.preserved hp) hd
  have hpush := Expr.gives_builtin_call (b := .push) ((hi₁.builtin .push).gives rfl)
    (.cons (hi₁.accumulated.gives rfl) (.cons happlied (.nil w₂))) rfl rfl
  exact ⟨_, .cons hrest (.cons hpush (.nil _))⟩

/-- Once no item is left, what was accumulated is the value. -/
theorem run_loopBody_nil (hi : Inside w.heap t m f [] ys) :
    ∃ w', (Program.eval depth t loopBody).run w = (.ok (.array ys), w') := by
  obtain ⟨w₁, hempty⟩ := isEmpty_gives depth hi
  have hi₁ := hi.preserved (hempty.preserves (apply_preserves depth) rfl)
  refine ⟨w₁, ?_⟩
  rw [loopBody, Program.run_cond_true _ hempty rfl]
  exact (hi₁.accumulated.gives rfl).program

/-- As long as an item is left, the value is that of the loop with the mapped item behind those that
were accumulated. -/
theorem run_loopBody_cons {r : Value}
    (hi : Inside w.heap t m (.function params b g) (v :: xs) ys)
    (hf : Maps k w.heap params b g op (v :: xs)) (hlen : xs.length + 1 < 2 ^ 64) (hd : k ≤ depth)
    (hnext : ∀ w₁ : World, w.heap.Preserves w₁.heap → ∃ w', (apply depth ["arr", "accumulated"]
      loopBody m [.array xs, .array (ys ++ [op v])]).run w₁ = (.ok r, w'))
    (hr : r.isReturned = false) :
    ∃ w', (Program.eval depth t loopBody).run w = (.ok r, w') := by
  obtain ⟨w₁, hempty⟩ := isEmpty_gives depth hi
  have hp₁ := hempty.preserves (apply_preserves depth) rfl
  have hi₁ := hi.preserved hp₁
  obtain ⟨w₂, hargs⟩ := arguments_give hi₁ (hf.preserved hp₁) hd
  have hp₂ := hargs.preserves (apply_preserves depth) rfl
  obtain ⟨w', hw'⟩ := hnext (w₂.note (.applied 2)) (hp₁.trans hp₂)
  have hne : Int64.ofNat (xs.length + 1) ≠ Int64.ofNat 0 := by
    rw [Ne, Arithmetic.ofNat_eq_iff hlen (by decide)]
    exact Nat.succ_ne_zero _
  refine ⟨w', ?_⟩
  rw [loopBody, Program.run_cond_false _ hempty (congrArg Value.isTrue
    (congrArg Value.bool (decide_eq_false hne)))]
  exact (Expr.gives_call (hi₁.loop.gives rfl) hargs hw' hr).program

/-- The loop puts the mapped items behind those that were accumulated. -/
theorem loop_maps (ys : List Value) (ha : Around w.heap m m (.function params b g))
    (hf : Maps k w.heap params b g op xs) (hlen : xs.length < 2 ^ 64) (hk : 0 < k)
    (hd : xs.length + k ≤ depth) :
    ∃ w', (apply depth ["arr", "accumulated"] loopBody m [.array xs, .array ys]).run w =
      (.ok (.array (ys ++ xs.map op)), w') := by
  induction xs generalizing ys w depth with
  | nil =>
    obtain ⟨depth, rfl⟩ : ∃ d, depth = d + 1 := ⟨depth - 1, by omega⟩
    rw [run_apply_succ, List.map_nil, List.append_nil]
    exact run_loopBody_nil (ha.inside [] ys)
  | cons v xs ih =>
    rw [List.length_cons] at hlen hd
    obtain ⟨depth, rfl⟩ : ∃ d, depth = d + 1 := ⟨depth - 1, by omega⟩
    have hp := w.preserves_enter m (["arr", "accumulated"].zip [.array (v :: xs), .array ys])
    rw [run_apply_succ]
    refine run_loopBody_cons (ha.inside (v :: xs) ys) (hf.preserved hp) hlen (by omega)
      (fun w₁ hp₁ => ?_) rfl
    have hf₁ : Maps k w₁.heap params b g op xs :=
      Maps.preserved (fun u hu => hf u (List.mem_cons_of_mem v hu)) (hp.trans hp₁)
    have hd₁ : xs.length + k ≤ depth := by omega
    rw [List.map_cons, List.append_cons ys (op v) (xs.map op)]
    exact ih _ (ha.preserved (hp.trans hp₁)) hf₁ (by omega) hd₁

/-- A call of `map` starts with the loop bound in its scope. -/
theorem around_enter {s : ScopeId} (hs : ∀ b : Builtin, w.heap.Means s b.name (.builtin b))
    (u f : Value) :
    Around (((w.enter s (["arr", "f"].zip [u, f])).bind w.heap.size "iter"
      (loop w.heap.size)).heap) w.heap.size w.heap.size f where
  function := (w.means_enter_bound ⟨[_], [], rfl, List.not_mem_nil⟩).bind (by decide) _ _
  loop := Heap.means_bind_self (w.size_lt_enter s _) _ _
  builtin b := (w.means_enter_free (by cases b <;> simp [Table.keys, Builtin.name]) (hs b)).bind
    (by cases b <;> decide) _ _

/-- Applied to an array and a function, `map` maps every item. -/
theorem map_maps {s : ScopeId} (hs : ∀ b : Builtin, w.heap.Means s b.name (.builtin b))
    (hf : Maps k w.heap params b g op xs) (hlen : xs.length < 2 ^ 64) (hk : 0 < k)
    (hd : xs.length + k < depth) :
    ∃ w', (apply depth ["arr", "f"] body s [.array xs, .function params b g]).run w =
      (.ok (.array (xs.map op)), w') := by
  obtain ⟨depth, rfl⟩ : ∃ d, depth = d + 1 := ⟨depth - 1, by omega⟩
  let m := w.heap.size
  let w₁ := w.enter s (["arr", "f"].zip [.array xs, .function params b g])
  let w₂ := w₁.bind m "iter" (loop m)
  have hp : w.heap.Preserves w₂.heap := (w.preserves_enter s _).bind (Nat.le_refl m) _ _
  have ha : Around w₂.heap m m (.function params b g) := around_enter hs _ _
  have harr : w₂.heap.Means m "arr" (.array xs) :=
    (w.means_enter_bound ⟨[], [_], rfl, by simp [Table.keys]⟩).bind (by decide) _ _
  have hloop : (Expr.fn ["arr", "accumulated"] loopBody).Gives (apply depth) m w₁ (loop m) w₁ :=
    ⟨rfl, rfl⟩
  have hargs : ExprsGive (apply depth) m [.ident "arr", .array []] w₂ [.array xs, .array []] w₂ :=
    .cons (harr.gives rfl) (.cons (Expr.gives_array (.nil w₂)) (.nil w₂))
  obtain ⟨w', hw'⟩ := loop_maps (w := w₂.note (.applied 2)) [] ha (hf.preserved hp) hlen hk
    (Nat.le_of_lt_succ hd)
  refine ⟨w', ?_⟩
  rw [run_apply_succ, body, Program.run_binding hloop (List.cons_ne_nil _ _)]
  exact (Expr.gives_call (ha.loop.gives rfl) hargs hw' rfl).program

def scale (c : Int64) : Value → Value
  | .int x => .int (x * c)
  | v => v

/-- The function finds `c` in the scope it captured, whatever scopes were opened in between. -/
theorem scaled_maps {s : ScopeId} {c : Int64} (hc : w.heap.Means s "c" (.int c))
    (ns : List Int64) : Maps 1 w.heap ["x"] scaled s (scale c) (ns.map .int) := by
  intro v hv
  obtain ⟨n, -, rfl⟩ := List.mem_map.mp hv
  refine ⟨rfl, rfl, fun depth hd w₁ hp => ?_⟩
  obtain ⟨depth, rfl⟩ : ∃ d, depth = d + 1 := ⟨depth - 1, by omega⟩
  let w₂ := w₁.enter s (["x"].zip [.int n])
  have hx : w₂.heap.Means w₁.heap.size "x" (.int n) :=
    w₁.means_enter_bound ⟨[], [], rfl, List.not_mem_nil⟩
  have hc₂ : w₂.heap.Means w₁.heap.size "c" (.int c) :=
    w₁.means_enter_free (by simp [Table.keys]) (hc.preserved hp)
  refine ⟨w₂, ?_⟩
  rw [run_apply_succ]
  exact (Expr.gives_binary (hx.gives rfl) (hc₂.gives rfl) rfl rfl).program

theorem run_program {s : ScopeId} {c : Int64} {ns : List Int64}
    (hxs : w.heap.Means s "xs" (.array (ns.map .int))) (hc : w.heap.Means s "c" (.int c))
    (hs : ∀ b : Builtin, w.heap.Means s b.name (.builtin b)) (hlen : ns.length < 2 ^ 64)
    (hd : ns.length + 1 < depth) :
    ∃ w', (Program.eval depth s program).run w =
        (.ok (.array ((ns.map (· * c)).map .int)), w') ∧
      ∀ x, x ≠ "map" → w'.heap.get? s x = w.heap.get? s x := by
  let f : Value := .function ["arr", "f"] body s
  let w₁ := w.bind s "map" f
  have hmap : w₁.heap.Means s "map" f := Heap.means_bind_self hxs.opened "map" f
  have hxs₁ : w₁.heap.Means s "xs" (.array (ns.map .int)) := hxs.bind (by decide) s f
  have hc₁ : w₁.heap.Means s "c" (.int c) := hc.bind (by decide) s f
  have hs₁ (b : Builtin) : w₁.heap.Means s b.name (.builtin b) :=
    (hs b).bind (by cases b <;> decide) s f
  have hfn : (Expr.fn ["arr", "f"] body).Gives (apply depth) s w f w := ⟨rfl, rfl⟩
  have hargs : ExprsGive (apply depth) s [.ident "xs", .fn ["x"] scaled] w₁
      [.array (ns.map .int), .function ["x"] scaled s] w₁ :=
    .cons (hxs₁.gives rfl) (.cons ⟨rfl, rfl⟩ (.nil w₁))
  obtain ⟨w', hw'⟩ := map_maps (w := w₁.note (.applied 2)) hs₁ (scaled_maps hc₁ ns)
    (by rwa [List.length_map]) Nat.one_pos (by rwa [List.length_map])
  have hcall := Expr.gives_call (hmap.gives rfl) hargs hw' rfl
  refine ⟨w', ?_, fun x hx => ?_⟩
  · rw [program, Program.run_binding hfn (List.cons_ne_nil _ _), hcall.program, List.map_map,
      List.map_map]
    rfl
  · have hp := hcall.preserves (apply_preserves depth) rfl
    rw [hp.get? hmap.opened, show w₁.heap = w.heap.bind s "map" f from rfl,
      Heap.get?_bind_of_ne _ hx.symm]

end

end Mapping

/-- The text is read without diagnostics. Where `xs` is an array of numbers, `c` is a number and no
other name is bound, its value is the array of the products, each reduced to 64 bits, and `map` is
the only name that is bound anew. The length of an array is a number of 64 bits. -/
theorem mapping_computed {w : World} {s : ScopeId} {xs : List Int64} {c : Int64}
    (hxs : w.heap.get? s "xs" = some (.array (xs.map .int)))
    (hc : w.heap.get? s "c" = some (.int c))
    (hfree : ∀ x, x ≠ "xs" → x ≠ "c" → w.heap.get? s x = none) (hlen : xs.length < 2 ^ 64) :
    ∃ (p : Program) (ys : List Int64), Program.ofSource Mapping.text.toList = .ok p ∧
      ys.map Int64.toInt = xs.map (fun x => (x.toInt * c.toInt).bmod (2 ^ 64)) ∧
      ∀ depth, xs.length + 1 < depth → ∃ w',
        (p.eval depth s).run w = (.ok (.array (ys.map .int)), w') ∧
        w'.heap.get? s "xs" = some (.array (xs.map .int)) ∧
        w'.heap.get? s "c" = some (.int c) ∧
        ∀ x, x ≠ "map" → w'.heap.get? s x = w.heap.get? s x := by
  have hx := Heap.means_of_get? hxs
  have hs (b : Builtin) : w.heap.Means s b.name (.builtin b) :=
    Heap.means_builtin hx.opened (Builtin.ofName?_name b)
      (hfree b.name (by cases b <;> decide) (by cases b <;> decide))
  refine ⟨Mapping.program, xs.map (· * c), Mapping.text_read, ?_, fun depth hd => ?_⟩
  · rw [List.map_map]
    exact List.map_congr_left fun x _ => Int64.toInt_mul x c
  · obtain ⟨w', hrun, hsame⟩ := Mapping.run_program hx (Heap.means_of_get? hc) hs hlen hd
    refine ⟨w', hrun, ?_, ?_, hsame⟩
    · rw [hsame "xs" (by decide), hxs]
    · rw [hsame "c" (by decide), hc]

theorem mapping_computed_overflow :
    let xs : List Int64 := [3, 4611686018427387904]
    let w : World := (World.bind Repl.fresh.1 0 "xs" (.array (xs.map .int))).bind 0 "c" (.int 4)
    w.heap.get? 0 "xs" = some (.array (xs.map .int)) ∧ w.heap.get? 0 "c" = some (.int 4) ∧
      (∀ x, x ≠ "xs" → x ≠ "c" → w.heap.get? 0 x = none) ∧
      ∃ p w', Program.ofSource Mapping.text.toList = .ok p ∧
        (p.eval 4 0).run w = (.ok (.array [.int 12, .int 0]), w') := by
  intro xs w
  have hxs : w.heap.get? 0 "xs" = some (.array (xs.map .int)) := Heap.get?_of_own rfl rfl
  have hc : w.heap.get? 0 "c" = some (.int 4) := Heap.get?_of_own rfl rfl
  have hfree (x : String) (h : x ≠ "xs") (h' : x ≠ "c") : w.heap.get? 0 x = none := by
    have hw : w.heap = (Repl.fresh.1.heap.bind 0 "xs" (.array (xs.map .int))).bind 0 "c" (.int 4) :=
      rfl
    rw [hw, Heap.get?_bind_of_ne _ h'.symm, Heap.get?_bind_of_ne _ h.symm, Heap.get?]
    rfl
  obtain ⟨p, ys, hp, hys, heval⟩ := mapping_computed hxs hc hfree (by decide)
  obtain ⟨w', hrun, -⟩ := heval 4 (by decide)
  have hval : ys = [12, 0] := by
    refine (List.map_inj_right fun x y => Int64.toInt_inj.mp).mp (hys.trans ?_)
    decide
  rw [hval] at hrun
  exact ⟨hxs, hc, hfree, p, w', hp, hrun⟩

end MonkeyLang
