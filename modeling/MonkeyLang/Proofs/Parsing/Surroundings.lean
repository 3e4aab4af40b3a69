import MonkeyLang.Proofs.Parsing.Accounting

namespace MonkeyLang

/-- The diagnostic of a token that `k` more tokens come before. -/
def Diagnostic.shift (k : Nat) (d : Diagnostic) : Diagnostic := { d with place := d.place + k }

theorem Diagnostic.map_shift_zero (ds : Array Diagnostic) : ds.map (shift 0) = ds :=
  Array.map_id' ds

/-- The tokens left open no brace and end with a semicolon. -/
structure Cursor.Closing (c : Cursor) : Prop where
  last : c.tokens.getLast? = some (.symbol .semicolon)
  braceless : .symbol .lbrace ∉ c.tokens

/-- What a text stands in: the number of tokens before it, the diagnostics on them and the tokens
after it. Only a closed text may have tokens after it. -/
structure Surroundings where
  before : Nat
  noted : Array Diagnostic
  after : List Token
  closed : Prop
  after_eq_nil : ¬ closed → after = []

variable {σ : Surroundings} {c c' : Cursor}

/-- The cursor `c'` stands in the surroundings where `c` stands in the text alone. -/
structure Beside (σ : Surroundings) (c c' : Cursor) : Prop where
  aligned : c.Aligned
  aligned' : c'.Aligned
  tokens : c'.tokens = c.tokens ++ σ.after
  place : c'.place = c.place + σ.before
  diagnostics : c'.diagnostics = σ.noted ++ c.diagnostics.map (Diagnostic.shift σ.before)

/-- The text does not end before the cursors, or nothing comes after it. -/
structure Within (σ : Surroundings) (c c' : Cursor) : Prop extends Beside σ c c' where
  closing : σ.closed → c.Closing

/-- A closed text goes on after the current token. -/
def Inside (σ : Surroundings) (c : Cursor) : Prop := σ.closed → c.cur ≠ .symbol .semicolon

theorem inside_of_cur {t : Token} (h : c.cur = t) (ht : t ≠ .symbol .semicolon) : Inside σ c :=
  fun _ => h ▸ ht

theorem Cursor.Closing.tokens_ne_nil (h : c.Closing) : c.tokens ≠ [] := by
  intro hn
  have hl := h.last
  rw [hn] at hl
  cases hl

theorem Cursor.Closing.suffix (h : c.Closing) {c₁ : Cursor} (hs : c₁.tokens <:+ c.tokens)
    (hn : c₁.tokens ≠ []) : c₁.Closing := by
  obtain ⟨us, hus⟩ := hs
  have hl := h.last
  have hb := h.braceless
  rw [← hus] at hl hb
  rw [List.getLast?_append, List.getLast?_eq_some_getLast hn, Option.some_or,
    ← List.getLast?_eq_some_getLast hn] at hl
  exact ⟨hl, fun hm => hb (List.mem_append_right _ hm)⟩

theorem Cursor.Closing.next (h : c.Closing) (hc : c.Aligned) :
    c.advance.tokens = [] ∨ c.advance.Closing := by
  by_cases hn : c.advance.tokens = []
  · exact .inl hn
  · exact .inr (h.suffix (hc.tail ▸ List.tail_suffix _) hn)

theorem Cursor.Closing.advance (h : c.Closing) (hc : c.Aligned)
    (hs : c.cur ≠ .symbol .semicolon) : c.advance.Closing := by
  refine (h.next hc).resolve_left fun hn => hs ?_
  obtain ⟨t, ts, ht⟩ := List.exists_cons_of_ne_nil h.tokens_ne_nil
  have hl := h.last
  rw [hc.tail, ht, List.tail_cons] at hn
  rw [ht, hn] at hl
  rw [cur_eq, ht]
  exact Option.some.inj hl

namespace Beside

theorem advance (h : Beside σ c c') (hn : c.tokens ≠ [] ∨ σ.after = []) :
    Beside σ c.advance c'.advance where
  aligned := h.aligned.advance
  aligned' := h.aligned'.advance
  tokens := by
    rw [h.aligned.tail, h.aligned'.tail, h.tokens]
    rcases hn with hn | hn
    · exact List.tail_append_of_ne_nil hn
    · rw [hn, List.append_nil, List.append_nil]
  place := by
    show c'.place + 1 = c.place + 1 + σ.before
    rw [h.place]
    omega
  diagnostics := h.diagnostics

theorem skip (h : Beside σ c c') : Beside σ c.skip c'.skip where
  aligned := ⟨h.aligned.peek, h.aligned.unread⟩
  aligned' := ⟨h.aligned'.peek, h.aligned'.unread⟩
  tokens := h.tokens
  place := h.place
  diagnostics := h.diagnostics

end Beside

namespace Within

theorem ne_nil_or_after (h : Within σ c c') : c.tokens ≠ [] ∨ σ.after = [] := by
  by_cases hc : σ.closed
  · exact .inl (h.closing hc).tokens_ne_nil
  · exact .inr (σ.after_eq_nil hc)

theorem cur (h : Within σ c c') : c'.cur = c.cur := by
  rw [c'.cur_eq, c.cur_eq, h.tokens]
  rcases h.ne_nil_or_after with hn | hn
  · obtain ⟨t, ts, ht⟩ := List.exists_cons_of_ne_nil hn
    rw [ht]
    rfl
  · rw [hn, List.append_nil]

theorem advance (h : Within σ c c') (hi : Inside σ c) : Within σ c.advance c'.advance where
  toBeside := h.toBeside.advance h.ne_nil_or_after
  closing hc := (h.closing hc).advance h.aligned (hi hc)

theorem peek (h : Within σ c c') (hi : Inside σ c) : c'.peek = c.peek := (h.advance hi).cur

theorem skip (h : Within σ c c') : Within σ c.skip c'.skip where
  toBeside := h.toBeside.skip
  closing hc := ⟨(h.closing hc).last, (h.closing hc).braceless⟩

theorem report (h : Within σ c c') {d d' : Diagnostic} (hd : d' = d.shift σ.before) :
    Within σ (c.report d) (c'.report d') where
  aligned := ⟨h.aligned.peek, h.aligned.unread⟩
  aligned' := ⟨h.aligned'.peek, h.aligned'.unread⟩
  tokens := h.tokens
  place := h.place
  diagnostics := by
    show c'.diagnostics.push d' = σ.noted ++ (c.diagnostics.push d).map _
    rw [h.diagnostics, Array.map_push, Array.append_push, hd]
  closing hc := ⟨(h.closing hc).last, (h.closing hc).braceless⟩

theorem open_of_cur (h : Within σ c c') (hb : c.cur = .symbol .lbrace) : ¬ σ.closed := by
  intro hc
  obtain ⟨t, ts, ht⟩ := List.exists_cons_of_ne_nil (h.closing hc).tokens_ne_nil
  rw [c.cur_eq, ht] at hb
  exact (h.closing hc).braceless (ht ▸ hb ▸ List.mem_cons_self)

end Within

namespace Production

variable {α β : Type} {Q Q' : Cursor → Prop}

/-- Two productions give the same result and stop at cursors that stand beside each other again,
with a property if there is a result. -/
structure Same (σ : Surroundings) (Q : Cursor → Prop) (p q : Production α) (c c' : Cursor) :
    Prop where
  result : (q.outcome c').1 = (p.outcome c).1
  within : Within σ (p.outcome c).2 (q.outcome c').2
  given : ∀ a c₁, p.outcome c = (some a, c₁) → Q c₁

theorem Same.bind {p q : Production α} {f g : α → Production β} (hp : Same σ Q p q c c')
    (hf : ∀ a c₁ c₁', p.outcome c = (some a, c₁) → Within σ c₁ c₁' → Q c₁ →
      Same σ Q' (f a) (g a) c₁ c₁') : Same σ Q' (p >>= f) (q >>= g) c c' := by
  obtain ⟨hr, hw, hq⟩ := hp
  rcases h : p.outcome c with ⟨r, c₁⟩
  rcases h' : q.outcome c' with ⟨r', c₁'⟩
  rw [h, h'] at hr hw
  cases hr
  cases r with
  | none =>
    have hn : (p >>= f).outcome c = (none, c₁) := by rw [outcome_bind, h]
    have hn' : (q >>= g).outcome c' = (none, c₁') := by rw [outcome_bind, h']
    constructor
    · rw [hn, hn']
    · rwa [hn, hn']
    · intro b c₂ hb
      rw [hn] at hb
      cases hb
  | some a =>
    have ha : (p >>= f).outcome c = (f a).outcome c₁ := by rw [outcome_bind, h]
    have ha' : (q >>= g).outcome c' = (g a).outcome c₁' := by rw [outcome_bind, h']
    obtain ⟨hr₁, hw₁, hq₁⟩ := hf a c₁ c₁' h hw (hq a c₁ h)
    constructor
    · rw [ha, ha', hr₁]
    · rwa [ha, ha']
    · rwa [ha]

theorem same_pure (hw : Within σ c c') (hq : Q c) (a : α) : Same σ Q (pure a) (pure a) c c' where
  result := rfl
  within := hw
  given := by
    rintro b c₁ ⟨⟩
    exact hq

theorem same_none {p q : Production α} {c₁ c₁' : Cursor} (hp : p.outcome c = (none, c₁))
    (hq : q.outcome c' = (none, c₁')) (hw : Within σ c₁ c₁') : Same σ Q p q c c' where
  result := by rw [hp, hq]
  within := by rwa [hp, hq]
  given a c₂ h := by
    rw [hp] at h
    cases h

theorem Same.congr {p q p₁ q₁ : Production α} {c₁ c₁' : Cursor} (h : Same σ Q p₁ q₁ c₁ c₁')
    (hp : p.outcome c = p₁.outcome c₁) (hq : q.outcome c' = q₁.outcome c₁') :
    Same σ Q p q c c' where
  result := by rw [hp, hq, h.result]
  within := by
    rw [hp, hq]
    exact h.within
  given := by
    rw [hp]
    exact h.given

theorem same_cur_bind {f g : Token → Production β} (hw : Within σ c c')
    (h : Same σ Q (f c.cur) (g c.cur) c c') : Same σ Q (cur >>= f) (cur >>= g) c c' :=
  h.congr rfl (by rw [outcome_cur_bind, hw.cur])

theorem same_peek_bind {f g : Token → Production β} (hw : Within σ c c') (hi : Inside σ c)
    (h : Same σ Q (f c.peek) (g c.peek) c c') : Same σ Q (peek >>= f) (peek >>= g) c c' :=
  h.congr rfl (by rw [outcome_peek_bind, hw.peek hi])

theorem same_advance_bind {f g : Unit → Production β}
    (h : Same σ Q (f ()) (g ()) c.advance c'.advance) :
    Same σ Q (advance >>= f) (advance >>= g) c c' :=
  h.congr rfl rfl

theorem same_skip_bind {f g : Unit → Production β} (h : Same σ Q (f ()) (g ()) c.skip c'.skip) :
    Same σ Q (skip >>= f) (skip >>= g) c c' :=
  h.congr rfl rfl

theorem Same.attempt {p q : Production α} (h : Same σ Q p q c c') :
    Same σ (fun _ => True) (attempt p) (attempt q) c c' where
  result := congrArg some h.result
  within := h.within
  given _ _ _ := trivial

theorem same_skipSemicolon_bind {f g : Unit → Production β} (hw : Within σ c c')
    (hi : Inside σ c) (h : ∀ d d', Within σ d d' → Same σ Q (f ()) (g ()) d d') :
    Same σ Q (skipSemicolon >>= f) (skipSemicolon >>= g) c c' := by
  have hd : Within σ c.pastSemicolon c'.pastSemicolon := by
    unfold Cursor.pastSemicolon
    rw [hw.peek hi]
    split
    · exact hw.advance hi
    · exact hw
  exact (h _ _ hd).congr (outcome_skipSemicolon_bind f c) (outcome_skipSemicolon_bind g c')

theorem same_refuse (hw : Within σ c c') (r : Diagnostic.Reason) :
    Same σ Q (refuse r : Production α) (refuse r) c c' := by
  refine same_none (outcome_refuse r c) (outcome_refuse r c') (hw.report ?_)
  rw [hw.place]
  rfl

theorem same_expect (hw : Within σ c c') (hi : Inside σ c) {k : Token.Kind}
    (hk : k ≠ .symbol .semicolon) : Same σ (Inside σ) (expect k) (expect k) c c' := by
  by_cases hp : c.peek.kind = k
  · have hs : Inside σ c.advance := fun _ hs => hk (by rw [← hp, show c.peek = _ from hs]; rfl)
    refine (same_pure (hw.advance hi) hs ()).congr ?_ ?_
    · rw [outcome_expect, if_pos hp, outcome_pure]
    · rw [outcome_expect, hw.peek hi, if_pos hp, outcome_pure]
  · have h : (expect k).outcome c =
        (none, c.report ⟨c.place + 1, .unexpected k c.peek.kind⟩) := by
      rw [outcome_expect, if_neg hp]
    have h' : (expect k).outcome c' =
        (none, c'.report ⟨c'.place + 1, .unexpected k c.peek.kind⟩) := by
      rw [outcome_expect, hw.peek hi, if_neg hp]
    refine same_none h h' (hw.report ?_)
    rw [hw.place, Nat.add_right_comm]
    rfl

theorem same_expectName (hw : Within σ c c') (hi : Inside σ c) :
    Same σ (Inside σ) expectName expectName c c' :=
  (same_expect hw hi (by decide)).bind fun _ _ _ _ hw₁ hi₁ =>
    same_cur_bind hw₁ (same_pure hw₁ hi₁ _)

theorem Same.ite {q : Prop} [Decidable q] {p₁ p₂ q₁ q₂ : Production α}
    (h : q → Same σ Q p₁ q₁ c c') (h' : ¬ q → Same σ Q p₂ q₂ c c') :
    Same σ Q (if q then p₁ else p₂) (if q then q₁ else q₂) c c' := by
  split
  · exact h ‹_›
  · exact h' ‹_›

theorem same_integer (hw : Within σ c c') (hq : Q c) (digits : String) :
    Same σ Q (integer digits) (integer digits) c c' :=
  Same.ite (fun _ => same_pure hw hq _) fun _ => same_refuse hw _

/-- The depths `m` and `n` are enough for a text and for all that follows it. -/
abbrev Enough (σ : Surroundings) (m n : Nat) (c : Cursor) (calls : Nat) : Prop :=
  4 * c.tokens.length + calls ≤ m ∧ 4 * (c.tokens.length + σ.after.length) + calls ≤ n

theorem same_more {item item' : Production α} {m n : Nat} (hm : item.Moves) (hw : Within σ c c')
    (hi : Inside σ c) (hn : c.tokens.length < m ∧ c.tokens.length + σ.after.length < n)
    (h : ∀ d d', c.Reaches d → Within σ d d' → Inside σ d → Same σ (Inside σ) item item' d d') :
    Same σ (Inside σ) (more item m) (more item' n) c c' := by
  induction m generalizing n c c' with
  | zero => omega
  | succ m ih =>
    obtain ⟨n, rfl⟩ : ∃ k, n = k + 1 := ⟨n - 1, by omega⟩
    refine same_peek_bind hw hi (Same.ite (fun hp => ?_) fun _ => same_pure hw hi _)
    have hlt : c.advance.tokens.length < c.tokens.length := by
      have hl := hw.aligned.length_advance
      have hpos := Cursor.tokens_length_pos (c := c) fun he => by simp [hw.aligned.peek he] at hp
      omega
    have hc : Inside σ c.advance := inside_of_cur hp (by simp)
    refine same_advance_bind ((h _ _ c.reaches_advance (hw.advance hi) hc).bind ?_)
    intro x c₁ c₁' hx hw₁ hi₁
    have hr : c.advance.Reaches c₁ := hm.reaches hx
    have hl := hr.length_le hw.aligned.advance
    have hrest : ∀ d d', c₁.Reaches d → Within σ d d' → Inside σ d →
        Same σ (Inside σ) item item' d d' := fun d d' hd =>
      h d d' (c.reaches_advance.trans (hr.trans hd))
    exact (ih hw₁ hi₁ (by omega) hrest).bind fun xs _ _ _ hw₂ hi₂ => same_pure hw₂ hi₂ _

theorem same_listed {item item' : Production α} {close : Symbol} {m n : Nat} (hm : item.Moves)
    (hs : close ≠ .semicolon) (hw : Within σ c c') (hi : Inside σ c)
    (hn : c.tokens.length < m ∧ c.tokens.length + σ.after.length < n)
    (h : ∀ d d', c.Reaches d → Within σ d d' → Inside σ d → Same σ (Inside σ) item item' d d') :
    Same σ (Inside σ) (listed item close m) (listed item' close n) c c' := by
  have hk : Token.Kind.symbol close ≠ .symbol .semicolon := fun he => hs (Token.Kind.symbol.inj he)
  refine same_peek_bind hw hi (Same.ite (fun hp => ?_) fun _ => ?_)
  · exact same_advance_bind (same_pure (hw.advance hi) (inside_of_cur hp (by simpa using hs)) _)
  · refine (h c c' .refl hw hi).bind fun x c₁ c₁' hx hw₁ hi₁ => ?_
    have hr : c.Reaches c₁ := hm.reaches hx
    have hl := hr.length_le hw.aligned
    refine (same_more hm hw₁ hi₁ (by omega) fun d d' hd => h d d' (hr.trans hd)).bind ?_
    intro xs c₂ c₂' _ hw₂ hi₂
    exact (same_expect hw₂ hi₂ hk).bind fun _ _ _ _ hw₃ hi₃ => same_pure hw₃ hi₃ _

end Production

end MonkeyLang
