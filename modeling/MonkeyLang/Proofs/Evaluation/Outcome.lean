import MonkeyLang.Eval

namespace MonkeyLang

namespace Eval

variable {α β : Type}

theorem run_bind (x : Eval α) (f : α → Eval β) (w : World) :
    (x >>= f).run w = match x.run w with
      | (.ok a, w₁) => (f a).run w₁
      | (.error e, w₁) => (.error e, w₁) := by
  have h : (x >>= f).run w = (match x.run w with
      | (r, w₁) => (ExceptT.bindCont f r).run w₁) := rfl
  rw [h]
  rcases x.run w with ⟨_ | a, w₁⟩ <;> rfl

theorem run_bind_ok {x : Eval α} {f : α → Eval β} {w w₁ : World} {a : α}
    (h : x.run w = (.ok a, w₁)) : (x >>= f).run w = (f a).run w₁ := by
  rw [run_bind, h]

theorem run_bind_error {x : Eval α} {f : α → Eval β} {w w₁ : World} {e : Stop}
    (h : x.run w = (.error e, w₁)) : (x >>= f).run w = (.error e, w₁) := by
  rw [run_bind, h]

theorem run_tryCatch (x : Eval α) (handle : Stop → Eval α) (w : World) :
    (tryCatch x handle).run w = match x.run w with
      | (.ok a, w') => (.ok a, w')
      | (.error e, w') => (handle e).run w' := by
  unfold run
  rw [show tryCatch x handle = ExceptT.tryCatch x handle from rfl, ExceptT.tryCatch,
    ExceptT.run_mk, StateT.run_bind, ExceptT.run]
  rcases StateT.run x w with ⟨_ | a, w'⟩ <;> rfl

@[simp] theorem run_pure (a : α) (w : World) : (pure a : Eval α).run w = (.ok a, w) := rfl

@[simp] theorem run_fail (f : Fault) (w : World) :
    (fail f : Eval α).run w = (.error (.fault f), w) := rfl

theorem run_ofExcept (r : Except Fault α) (w : World) :
    (Eval.ofExcept r).run w = (r.mapError .fault, w) := by
  cases r <;> rfl

@[simp] theorem run_lookup (s : ScopeId) (x : String) (w : World) :
    (lookup s x).run w = (.ok (w.heap.get? s x), w) := rfl

@[simp] theorem run_bindName (s : ScopeId) (x : String) (v : Value) (w : World) :
    (Eval.bind s x v).run w = (.ok (), w.bind s x v) := rfl

@[simp] theorem run_openScope (outer : ScopeId) (w : World) :
    (Eval.openScope outer).run w = (.ok w.heap.size, w.openScope (some outer)) := rfl

@[simp] theorem run_print (text : String) (w : World) :
    (Eval.print text).run w = (.ok (), w.print text) := rfl

@[simp] theorem run_note (e : Log.Event) (w : World) :
    (Eval.note e).run w = (.ok (), w.note e) := rfl

/-- However an evaluation ends, it keeps an invariant of the world, and a value it gives has a
property. -/
def Keeps (I : World → Prop) (P : α → Prop) (x : Eval α) : Prop :=
  ∀ w, I w → I (x.run w).2 ∧ ∀ a, (x.run w).1 = .ok a → P a

variable {I : World → Prop} {P : α → Prop} {Q : β → Prop}

theorem Keeps.world {x : Eval α} {w w' : World} {r : Except Stop α} (h : Keeps I P x) (hw : I w)
    (hr : x.run w = (r, w')) : I w' := by
  have hx := (h w hw).1
  rwa [hr] at hx

theorem Keeps.value {x : Eval α} {w w' : World} {a : α} (h : Keeps I P x) (hw : I w)
    (hr : x.run w = (.ok a, w')) : P a :=
  (h w hw).2 a (by rw [hr])

theorem Keeps.mono {P' : α → Prop} {x : Eval α} (h : Keeps I P x) (hp : ∀ a, P a → P' a) :
    Keeps I P' x :=
  fun w hw => ⟨(h w hw).1, fun a ha => hp a ((h w hw).2 a ha)⟩

theorem keeps_pure {a : α} (h : P a) : Keeps I P (pure a) := by
  intro w hw
  refine ⟨hw, ?_⟩
  rintro b ⟨⟩
  exact h

theorem keeps_throw (e : Stop) : Keeps I P (throw e) := by
  intro w hw
  refine ⟨hw, ?_⟩
  rintro a ⟨⟩

theorem keeps_fail (f : Fault) : Keeps I P (fail f) := keeps_throw (.fault f)

theorem keeps_ofExcept {r : Except Fault α} (h : ∀ a, r = .ok a → P a) :
    Keeps I P (ofExcept r) := by
  cases r with
  | ok a => exact keeps_pure (h a rfl)
  | error f => exact keeps_fail f

theorem Keeps.bind {x : Eval α} {f : α → Eval β} (hx : Keeps I P x)
    (hf : ∀ a, P a → Keeps I Q (f a)) : Keeps I Q (x >>= f) := by
  intro w hw
  rcases h : x.run w with ⟨e | a, w₁⟩
  · rw [run_bind_error h]
    refine ⟨hx.world hw h, ?_⟩
    rintro b ⟨⟩
  · rw [run_bind_ok h]
    exact hf a (hx.value hw h) w₁ (hx.world hw h)

theorem Keeps.operand {P Q : Value → Prop} {x : Eval Value} {k : Value → Eval Value}
    (hx : Keeps I P x) (hk : ∀ v, P v → v.isReturned = false → Keeps I Q (k v))
    (hr : ∀ v, P (.returned v) → Q (.returned v)) : Keeps I Q (operand x k) := by
  refine hx.bind fun v hv => ?_
  cases v with
  | returned v => exact keeps_pure (hr v hv)
  | _ => exact hk _ hv rfl

theorem keeps_note (e : Log.Event) (h : ∀ w, I w → I (w.note e)) :
    Keeps I (fun _ => True) (note e) :=
  fun w hw => ⟨h w hw, fun _ _ => trivial⟩

theorem keeps_print (text : String) (h : ∀ w, I w → I (w.print text)) :
    Keeps I (fun _ => True) (print text) :=
  fun w hw => ⟨h w hw, fun _ _ => trivial⟩

theorem keeps_bindName {s : ScopeId} {x : String} {v : Value} (h : ∀ w, I w → I (w.bind s x v)) :
    Keeps I (fun _ => True) (Eval.bind s x v) :=
  fun w hw => ⟨h w hw, fun _ _ => trivial⟩

theorem keeps_openScope {outer : ScopeId} (h : ∀ w, I w → I (w.openScope (some outer))) :
    Keeps I (fun _ => True) (Eval.openScope outer) :=
  fun w hw => ⟨h w hw, fun _ _ => trivial⟩

end Eval

theorem Builtin.heap_run_call (b : Builtin) (args : List Value) (w : World) :
    ((b.call args).run w).2.heap = w.heap := by
  unfold Builtin.call
  rw [Eval.run_bind_ok (Eval.run_note _ _), Eval.run_bind_ok (Eval.run_print _ _)]
  cases b.result args <;> rfl

end MonkeyLang
