import MonkeyLang.Proofs.Evaluation.Outcome

namespace MonkeyLang

namespace Eval

variable {α α' β β' : Type}

/-- Values that `P` relates, or one and the same reason to have none. -/
inductive Alike (P : α → α' → Prop) : Except Stop α → Except Stop α' → Prop
  | ok {a : α} {a' : α'} (h : P a a') : Alike P (.ok a) (.ok a')
  | error (e : Stop) : Alike P (.error e) (.error e)

theorem Alike.imp {P Q : α → α' → Prop} {r : Except Stop α} {r' : Except Stop α'}
    (h : Alike P r r') (hp : ∀ a a', P a a' → Q a a') : Alike Q r r' := by
  cases h with
  | ok ha => exact .ok (hp _ _ ha)
  | error e => exact .error e

/-- In worlds that `R` relates, two evaluations end alike and leave worlds that `R` relates. -/
def Agree (R : World → World → Prop) (P : α → α' → Prop) (x : Eval α) (y : Eval α') : Prop :=
  ∀ w w', R w w' → Alike P (x.run w).1 (y.run w').1 ∧ R (x.run w).2 (y.run w').2

variable {R : World → World → Prop} {P : α → α' → Prop} {Q : β → β' → Prop}

theorem agree_pure {a : α} {a' : α'} (h : P a a') : Agree R P (pure a) (pure a') :=
  fun _ _ hw => ⟨.ok h, hw⟩

theorem agree_throw (e : Stop) : Agree R P (throw e) (throw e) := fun _ _ hw => ⟨.error e, hw⟩

theorem agree_fail (f : Fault) : Agree R P (fail f) (fail f) := agree_throw (.fault f)

theorem agree_ofExcept {r : Except Fault α} {f : α → α'} (h : ∀ a, r = .ok a → P a (f a)) :
    Agree R P (ofExcept r) (ofExcept (r.map f)) := by
  cases r with
  | ok a => exact agree_pure (h a rfl)
  | error e => exact agree_fail e

theorem Agree.bind {x : Eval α} {y : Eval α'} {f : α → Eval β} {g : α' → Eval β'}
    (hx : Agree R P x y) (hf : ∀ a a', P a a' → Agree R Q (f a) (g a')) :
    Agree R Q (x >>= f) (y >>= g) := by
  intro w w' hw
  obtain ⟨hr, hw₁⟩ := hx w w' hw
  rcases h : x.run w with ⟨r, w₁⟩
  rcases h' : y.run w' with ⟨r', w₁'⟩
  rw [h, h'] at hr hw₁
  cases hr with
  | ok ha =>
    rw [run_bind_ok h, run_bind_ok h']
    exact hf _ _ ha w₁ w₁' hw₁
  | error e =>
    rw [run_bind_error h, run_bind_error h']
    exact ⟨.error e, hw₁⟩

theorem Agree.operand {P Q : Value → Value → Prop} {x y : Eval Value} {k l : Value → Eval Value}
    (hx : Agree R P x y) (hp : ∀ v v', P v v' → v'.isReturned = v.isReturned)
    (hk : ∀ v v', P v v' → v.isReturned = false → Agree R Q (k v) (l v'))
    (hr : ∀ v v', P (.returned v) (.returned v') → Q (.returned v) (.returned v')) :
    Agree R Q (operand x k) (operand y l) := by
  refine hx.bind fun v v' hv => ?_
  have hret := hp v v' hv
  cases v with
  | returned v =>
    cases v' with
    | returned v' => exact agree_pure (hr v v' hv)
    | _ => cases hret
  | _ =>
    cases v' with
    | returned v' => cases hret
    | _ => exact hk _ _ hv rfl

end Eval

end MonkeyLang
