import Mathlib
import MonkeyLang.Proofs.Evaluation.Arithmetic
import MonkeyLang.Proofs.Evaluation.Calls
import MonkeyLang.Proofs.Parsing.Fragments
import MonkeyLang.Repl

namespace MonkeyLang

namespace Fibonacci

/-- A function that calls itself by the name it is bound to. -/
def functionText : String :=
  "fn(x) \x7b\n" ++
  "  if (x == 0) \x7b 0 \x7d else \x7b\n" ++
  "    if (x == 1) \x7b return 1; \x7d else \x7b fibonacci(x - 1) + fibonacci(x - 2); \x7d\n" ++
  "  \x7d\n" ++
  "\x7d;"

def callText (n : Nat) : String := "\nfibonacci(" ++ toString n ++ ");"

def text (n : Nat) : String := "let fibonacci = " ++ functionText ++ callText n

def isEqual (k : Int64) : Expr := .binary (.ident "x") .eq (.int k)

def call (arg : Expr) : Expr := .call (.ident "fibonacci") [arg]

def less (k : Int64) : Expr := .binary (.ident "x") .minus (.int k)

def sum : Expr := .binary (call (less 1)) .plus (call (less 2))

def body : Block :=
  [.expr (.cond (isEqual 0) [.expr (.int 0)]
    (some [.expr (.cond (isEqual 1) [.ret (.int 1)] (some [.expr sum]))]))]

def program (n : Nat) : Program :=
  [.bind "fibonacci" (.fn ["x"] body), .expr (call (.int (Int64.ofNat n)))]

theorem spells_function : Source.Spells functionText.toList (.fn ["x"] body) := by
  decide +kernel

open Phrase (Spans Parted) in
theorem callText_read {n : Nat} (hn : n < 2 ^ 63) :
    Program.ofSource (callText n).toList = .ok [.expr (call (.int (Int64.ofNat n)))] := by
  have ht : (callText n).toList =
      '\n' :: ("fibonacci".toList ++ '(' :: ((toString n).toList ++ ')' :: [';'])) := by
    simp [callText]
  have hparen : Source.Apart (')' :: [';']) := Source.apart_char rfl (by decide) _
  have harg := spans_nat hn hparen
  rw [Source.tokens_char ')' rfl (by decide)] at harg
  refine Program.ofSource_of_spans ?_
  rw [ht, Source.tokens_layout rfl, Source.tokens_name (by decide +kernel)
    (Source.apart_char rfl (by decide) _).letter, Source.tokens_char '(' rfl (by decide)]
  rw [Source.tokens_char ';' rfl (by decide), Source.tokens_nil] at harg
  have hlist : Spans Parted (.list [.int (Int64.ofNat n)]) _ _ :=
    .listCons (Spans.atom harg).whole_of_suffixed .tailNil
  exact .stmtsClosed (.expr (Spans.call (.atom .ident) hlist).whole_of_suffixed) .stmtsNil

theorem text_read {n : Nat} (hn : n < 2 ^ 63) :
    Program.ofSource (text n).toList = .ok (program n) := by
  have hlet : "let fibonacci = " = "let " ++ "fibonacci" ++ " = " := by decide +kernel
  have ht : text n = "let " ++ "fibonacci" ++ " = " ++ functionText ++ callText n :=
    congrArg (· ++ functionText ++ callText n) hlet
  rw [ht]
  simp only [String.toList_append]
  exact Program.ofSource_bind (by decide +kernel) spells_function (callText_read hn)

section

variable {depth n : Nat} {g t : ScopeId} {w w' : World}

def closure (g : ScopeId) : Value := .function ["x"] body g

/-- The function captured the scope that it is bound in, and maps `n` to its Fibonacci number. -/
def Computes (depth : Nat) (g : ScopeId) (n : Nat) : Prop :=
  ∀ w : World, w.heap.Means g "fibonacci" (closure g) → ∃ w',
    (apply depth ["x"] body g [.int (.ofNat n)]).run w = (.ok (.int (.ofNat (Nat.fib n))), w')

theorem isEqual_gives {m k : Int64} {b : Bool} (hx : w.heap.Means t "x" (.int m))
    (hb : decide (m = k) = b) : (isEqual k).Gives (apply depth) t w (.bool b) w :=
  hb ▸ Expr.gives_binary (hx.gives rfl) ⟨rfl, rfl⟩ rfl rfl

theorem less_gives {k : Nat} (hk : k ≤ n) (hx : w.heap.Means t "x" (.int (.ofNat n))) :
    (less (.ofNat k)).Gives (apply depth) t w (.int (.ofNat (n - k))) w := by
  rw [Int64.ofNat_sub n k hk]
  exact Expr.gives_binary (hx.gives rfl) ⟨rfl, rfl⟩ rfl rfl

theorem Computes.call_gives (h : Computes depth g n) {arg : Expr}
    (hg : w.heap.Means g "fibonacci" (closure g)) (hf : w.heap.Means t "fibonacci" (closure g))
    (harg : arg.Gives (apply depth) t w (.int (.ofNat n)) w) :
    ∃ w', (call arg).Gives (apply depth) t w (.int (.ofNat (Nat.fib n))) w' := by
  obtain ⟨w', hw'⟩ := h (w.note (.applied 1)) hg
  exact ⟨w', Expr.gives_call (hf.gives rfl) (.cons harg (.nil w)) hw' rfl⟩

theorem run_body_zero (hx : w.heap.Means t "x" (.int 0)) :
    (Program.eval depth t body).run w = (.ok (.int 0), w) :=
  Program.run_cond_true _ (isEqual_gives hx (decide_eq_true rfl)) rfl

theorem run_body_one (hx : w.heap.Means t "x" (.int 1)) :
    (Program.eval depth t body).run w = (.ok (.int 1), w) := by
  have h₀ : (1 : Int64) ≠ 0 := by decide
  have h₁ : (Expr.int 1).Gives (apply depth) t w (.int 1) w := ⟨rfl, rfl⟩
  rw [body, Program.run_cond_false _ (isEqual_gives hx (decide_eq_false h₀)) rfl,
    Program.run_cond_true _ (isEqual_gives hx (decide_eq_true rfl)) rfl, h₁.run_ret]

theorem run_body_more {m : Int64} {v : Value} (hx : w.heap.Means t "x" (.int m)) (h₀ : m ≠ 0)
    (h₁ : m ≠ 1) (hs : sum.Gives (apply depth) t w v w') :
    (Program.eval depth t body).run w = (.ok v, w') := by
  rw [body, Program.run_cond_false _ (isEqual_gives hx (decide_eq_false h₀)) rfl,
    Program.run_cond_false _ (isEqual_gives hx (decide_eq_false h₁)) rfl, hs.program]

/-- In the scope of a call, calls with smaller arguments are as they should be. -/
theorem run_body (hn : n < 2 ^ 63) (hx : w.heap.Means t "x" (.int (.ofNat n)))
    (hf : w.heap.Means t "fibonacci" (closure g)) (hg : w.heap.Means g "fibonacci" (closure g))
    (ih : ∀ m, m < n → Computes depth g m) :
    ∃ w', (Program.eval depth t body).run w = (.ok (.int (.ofNat (Nat.fib n))), w') := by
  match n with
  | 0 => exact ⟨w, run_body_zero hx⟩
  | 1 => exact ⟨w, run_body_one hx⟩
  | n + 2 =>
    have h₁ : Computes depth g (n + 1) := ih (n + 1) (by omega)
    have h₂ : Computes depth g n := ih n (by omega)
    obtain ⟨w₁, hc₁⟩ := h₁.call_gives hg hf (less_gives (k := 1) (by omega) hx)
    have hp := hc₁.preserves (apply_preserves depth) rfl
    obtain ⟨w₂, hc₂⟩ := h₂.call_gives (hg.preserved hp) (hf.preserved hp)
      (less_gives (k := 2) (by omega) (hx.preserved hp))
    have hadd : (Value.int (.ofNat (Nat.fib (n + 1)))).binary .plus (.int (.ofNat (Nat.fib n))) =
        .ok (.int (.ofNat (Nat.fib (n + 2)))) := by
      rw [Nat.fib_add_two, Nat.add_comm (Nat.fib n), Int64.ofNat_add]
      rfl
    have hne {k : Nat} (hk : k < 2) : Int64.ofNat (n + 2) ≠ Int64.ofNat k := by
      rw [Ne, Arithmetic.ofNat_eq_iff (by omega) (by omega)]
      omega
    exact ⟨w₂, run_body_more hx (hne (k := 0) (by decide)) (hne (k := 1) (by decide))
      (Expr.gives_binary hc₁ hc₂ hadd rfl)⟩

theorem computes (g : ScopeId) (hd : n < depth) (hn : n < 2 ^ 63) : Computes depth g n := by
  induction n using Nat.strongRecOn generalizing depth with
  | ind n ih =>
    intro w hg
    obtain ⟨depth, rfl⟩ : ∃ d, depth = d + 1 := ⟨depth - 1, by omega⟩
    rw [run_apply_succ]
    refine run_body hn ?_ ?_ ?_ fun m hm => ih m hm (by omega) (by omega)
    · exact w.means_enter_bound ⟨[], [], rfl, List.not_mem_nil⟩
    · exact w.means_enter_free (by simp [Table.keys]) hg
    · exact hg.preserved (w.preserves_enter g _)

theorem run_program {s : ScopeId} (hs : s < w.heap.size) (hd : n < depth) (hn : n < 2 ^ 63) :
    ((Program.eval depth s (program n)).run w).1 = .ok (.int (.ofNat (Nat.fib n))) := by
  have hfn : (Expr.fn ["x"] body).Gives (apply depth) s w (closure s) w := ⟨rfl, rfl⟩
  have hg : (w.bind s "fibonacci" (closure s)).heap.Means s "fibonacci" (closure s) :=
    Heap.means_bind_self hs "fibonacci" (closure s)
  have harg {w' : World} : (Expr.int (.ofNat n)).Gives (apply depth) s w' (.int (.ofNat n)) w' :=
    ⟨rfl, rfl⟩
  obtain ⟨w', hw'⟩ := (computes s hd hn).call_gives hg hg harg
  rw [program, Program.run_binding hfn (List.cons_ne_nil _ _), hw'.program]

end

end Fibonacci

/-- The text is read without diagnostics, and in a scope that binds nothing yet its value is the
Fibonacci number, reduced to 64 bits. Calls nest no deeper than the argument, or once for zero. -/
theorem fibonacci_computed {n : Nat} (hn : n < 2 ^ 63) :
    ∃ (p : Program) (m : Int64), Program.ofSource (Fibonacci.text n).toList = .ok p ∧
      m.toInt = (Nat.fib n : Int).bmod (2 ^ 64) ∧ ∀ depth, n < depth →
        ((p.eval depth Repl.fresh.2).run Repl.fresh.1).1 = .ok (.int m) :=
  ⟨Fibonacci.program n, Int64.ofNat (Nat.fib n), Fibonacci.text_read hn, Int64.toInt_ofNat',
    fun _ hd => Fibonacci.run_program (by decide) hd hn⟩

theorem fibonacci_computed_overflow : 93 < 2 ^ 63 ∧ (Nat.fib 93 : Int) = 12200160415121876738 ∧
    ∃ p, Program.ofSource (Fibonacci.text 93).toList = .ok p ∧
      ((p.eval 94 Repl.fresh.2).run Repl.fresh.1).1 = .ok (.int (-6246583658587674878)) := by
  have hfib : (Nat.fib 93 : Int) = 12200160415121876738 := by norm_num
  obtain ⟨p, m, hp, hm, heval⟩ := fibonacci_computed (n := 93) (by decide)
  have hval : m = -6246583658587674878 := by
    rw [← Int64.toInt_inj, hm, hfib]
    decide
  exact ⟨by decide, hfib, p, hp, hval ▸ heval 94 (by decide)⟩

end MonkeyLang
