import MonkeyLang.Proofs.Evaluation.History
import MonkeyLang.Proofs.Evaluation.Lookup

namespace MonkeyLang

instance (n : Nat) (v : Value) : Decidable (v.Below n) :=
  inferInstanceAs (Decidable (∀ s ∈ v.captured, s < n))

/-- A world, the scopes that are held from outside, and all that was done to the scopes so far. -/
structure Session where
  world : World := {}
  handles : List ScopeId := []
  edits : List Edit := []

/-- What can be done with handles, which are known by the order they came up in. `hold` takes the
scope that a function captured. -/
inductive Move where
  | new
  | enclose (k : Nat)
  | clone (k : Nat)
  | hold (s : ScopeId)
  | set (k : Nat) (name : String) (v : Value)
  | eval (k : Nat) (depth : Nat) (p : Program)

namespace Session

def heap (e : Session) : Heap := e.world.heap

def openScope (e : Session) (outer : Option ScopeId) : Session where
  world := e.world.openScope outer
  handles := e.handles ++ [e.heap.size]
  edits := e.edits ++ [.openScope outer]

def hold (e : Session) (s : ScopeId) : Session := { e with handles := e.handles ++ [s] }

def set (e : Session) (s : ScopeId) (x : String) (v : Value) : Session :=
  { e with
    world := e.world.bind s x v
    edits := e.edits ++ [.bind s x v] }

def eval (e : Session) (depth : Nat) (s : ScopeId) (p : Program) : Session :=
  { e with
    world := ((p.eval depth s).run e.world).2
    edits := e.edits ++ p.edits depth s e.world }

/-- Goes on with the scope of a handle, if there is such a handle. -/
def via (e : Session) (k : Nat) (f : ScopeId → Session) : Session := e.handles[k]?.elim e f

/-- Does nothing where a handle or a scope is not there. -/
def perform (e : Session) : Move → Session
  | .new => e.openScope none
  | .enclose k => e.via k fun s => e.openScope (some s)
  | .clone k => e.via k e.hold
  | .hold s => if s < e.heap.size then e.hold s else e
  | .set k x v => e.via k fun s => if v.Below e.heap.size then e.set s x v else e
  | .eval k depth p => e.via k fun s => e.eval depth s p

def run (e : Session) (ms : List Move) : Session := ms.foldl perform e

def get (e : Session) (k : Nat) (x : String) : Option Value :=
  e.handles[k]?.bind fun s => e.heap.get? s x

/-- What a move can do, and the scope that it may change. -/
inductive Step (e : Session) : Option ScopeId → Session → Prop where
  | stay : Step e none e
  | openScope {outer : Option ScopeId} (ho : ∀ s, outer = some s → s ∈ e.handles) :
      Step e none (e.openScope outer)
  | hold {s : ScopeId} (hs : s ∈ e.handles ∨ s < e.heap.size) : Step e none (e.hold s)
  | set {s : ScopeId} (hs : s ∈ e.handles) (x : String) {v : Value} (hv : v.Below e.heap.size) :
      Step e (some s) (e.set s x v)
  | eval {s : ScopeId} (hs : s ∈ e.handles) (depth : Nat) (p : Program) :
      Step e (some s) (e.eval depth s p)

/-- All handles are of scopes that are there, and the heap is what the edits made of it. -/
structure Sound (e : Session) : Prop where
  handles : ∀ s ∈ e.handles, s < e.heap.size
  closed : e.heap.Closed
  edited : Heap.Edited {} e.edits e.heap

variable {e e' : Session} {o : Option ScopeId}

theorem Step.sound (h : e.Step o e') (he : e.Sound) : e'.Sound := by
  cases h with
  | stay => exact he
  | @openScope outer ho =>
    refine ⟨fun s hs => ?_, ?_, he.edited.trans (.openScope outer (.nil _))⟩
    · show s < (e.heap.openScope outer).size
      rw [Heap.size_openScope]
      rcases List.mem_append.mp hs with hs | hs
      · exact Nat.lt_succ_of_lt (he.handles s hs)
      · exact List.mem_singleton.mp hs ▸ Nat.lt_succ_self _
    · exact he.closed.openScope fun t ht => he.handles t (ho t ht)
  | @hold s hs =>
    refine ⟨fun t ht => ?_, he.closed, he.edited⟩
    rcases List.mem_append.mp ht with ht | ht
    · exact he.handles t ht
    · rw [List.mem_singleton.mp ht]
      exact hs.elim (he.handles s) id
  | @set s hs x v hv =>
    refine ⟨fun t ht => ?_, he.closed.bind hv s x,
      he.edited.trans (.bind (he.handles s hs) x v (.nil _))⟩
    show t < (e.heap.bind s x v).size
    rw [Heap.size_bind]
    exact he.handles t ht
  | @eval s hs depth p =>
    have hlt := he.handles s hs
    have hmade := Program.makes depth (Nat.lt_succ_self s) p e.world hlt
    refine ⟨fun t ht => Nat.lt_of_lt_of_le (he.handles t ht) hmade.size_le, ?_, ?_⟩
    · exact Action.perform_closed (a := .program depth s p) he.closed hlt
    · exact he.edited.trans hmade

theorem Step.others (h : e.Step o e') {t : ScopeId} (ht : t < e.heap.size) (hn : o ≠ some t) :
    e'.heap.scope? t = e.heap.scope? t := by
  cases h with
  | stay => rfl
  | openScope => exact Heap.scope?_openScope_of_lt ht _
  | hold => rfl
  | set => exact Heap.scope?_bind_of_ne (fun hs => hn (congrArg some hs.symm)) _ _ _
  | @eval s _ depth p =>
    have hs : e.heap.scope? t = some _ := Array.getElem?_eq_getElem ht
    rw [hs]
    exact ((p.writes depth s).extends e.world).others t _ (fun h => hn (congrArg some h.symm)) hs

end Session

end MonkeyLang
