import MonkeyLang.Proofs.Acceptance
import MonkeyLang.Proofs.Parsing.Locality

namespace MonkeyLang

theorem Cursor.Reaches.place_add_length {c c₁ : Cursor} (h : c.Reaches c₁) (hc : c.Aligned)
    (hn : c₁.tokens ≠ []) : c₁.place + c₁.tokens.length = c.place + c.tokens.length := by
  induction h with
  | refl => rfl
  | @tail d _ h hs ih =>
    cases hs with
    | advance =>
      have hd := (Cursor.Reaches.aligned h hc).tail
      have hne : d.tokens ≠ [] := fun he => hn (by rw [hd, he, List.tail_nil])
      have hl := (Cursor.Reaches.aligned h hc).length_advance
      have hpos := List.length_pos_iff.mpr hne
      have hi := ih hne
      show d.place + 1 + d.advance.tokens.length = _
      omega
    | report d => exact ih hn
    | skip => exact ih hn

namespace Production

variable {σ : Surroundings} {m n : Nat} {c c' : Cursor}

/-- Reading from `c'` on gives the statements `p` of the text, which ends at `e`, and then those that
are read from `d` on. -/
structure Split (σ : Surroundings) (m n : Nat) (c c' : Cursor) (p : List Stmt) (k : Nat)
    (e d : Cursor) : Prop where
  first : (statements m endsProgram).outcome c = (some p, e)
  finished : e.tokens = []
  place : e.place = c.place + c.tokens.length
  beside : Beside σ e d
  depth : 4 * σ.after.length + 4 ≤ k
  whole : ∀ q d', (statements k endsProgram).outcome d = (some q, d') →
    (statements n endsProgram).outcome c' = (some (p ++ q), d')

theorem Split.past {r : Option Stmt} {p : List Stmt} {k : Nat} {d d' e f : Cursor}
    (h : Split σ m n d d' p k e f)
    (hp : d.place + d.tokens.length = c.place + c.tokens.length)
    (hc : ∀ b e', (statements m endsProgram).outcome d = (some b, e') →
      (statements (m + 1) endsProgram).outcome c = (some (r.toList ++ b), e'))
    (hc' : ∀ b e', (statements n endsProgram).outcome d' = (some b, e') →
      (statements (n + 1) endsProgram).outcome c' = (some (r.toList ++ b), e')) :
    Split σ (m + 1) (n + 1) c c' (r.toList ++ p) k e f where
  first := hc _ _ h.first
  finished := h.finished
  place := h.place.trans hp
  beside := h.beside
  depth := h.depth
  whole q d' hq := by
    rw [List.append_assoc]
    exact hc' _ _ (h.whole q d' hq)

theorem statements_split (hσ : σ.closed) (hb : Beside σ c c') (hc : c.tokens = [] ∨ c.Closing)
    (hn : Enough σ m n c 4) : ∃ p k e d, Split σ m n c c' p k e d := by
  induction m generalizing n c c' with
  | zero => omega
  | succ m ih =>
    obtain ⟨n, rfl⟩ : ∃ k, n = k + 1 := ⟨n - 1, by omega⟩
    rcases hc with hc | hc
    · have hend : endsProgram c.cur = true := decide_eq_true (Cursor.tokens_eq_nil.mp hc)
      have hplace : c.place = c.place + c.tokens.length := by rw [hc, List.length_nil, Nat.add_zero]
      exact ⟨[], n + 1, c, c', statements_some.mpr (.done hend), hc, hplace, hb, by omega,
        fun _ _ h => h⟩
    · have hw : Within σ c c' := ⟨hb, fun _ => hc⟩
      have hgo : endsProgram c.cur = false :=
        decide_eq_false (mt Cursor.tokens_eq_nil.mpr hc.tokens_ne_nil)
      have hgo' : endsProgram c'.cur = false := by rwa [hw.cur]
      have step {d d' : Cursor} (hr : c.Reaches d) (hd : Within σ d d') :
          d.advance.place + d.advance.tokens.length = c.place + c.tokens.length ∧
            ∃ p k e f, Split σ m n d.advance d'.advance p k e f := by
        have hcl := hd.closing hσ
        have hpos := List.length_pos_iff.mpr hcl.tokens_ne_nil
        have hl := hd.aligned.length_advance
        have hle := hr.length_le hw.aligned
        have hp := hr.place_add_length hw.aligned hcl.tokens_ne_nil
        have henough : Enough σ m n d.advance 4 := by constructor <;> omega
        refine ⟨?_, ih (hd.toBeside.advance (.inl hcl.tokens_ne_nil)) (hcl.next hd.aligned) henough⟩
        show d.place + 1 + d.advance.tokens.length = _
        omega
      have hs := (productions_local σ m n).statement c c' hw (by omega)
      rcases ho : (statement m).outcome c with ⟨r, c₁⟩
      rcases ho' : (statement n).outcome c' with ⟨r', c₁'⟩
      obtain ⟨hr, hw₁, -⟩ := hs
      rw [ho, ho'] at hr hw₁
      cases hr
      have hreach : c.Reaches c₁ := (moves_statement m).reaches ho
      cases r with
      | none =>
        obtain ⟨hp, p, k, e, f, h⟩ := step (hreach.tail .skip) hw₁.skip
        exact ⟨_, k, e, f, h.past (r := none) hp
          (fun _ _ hb => statements_some.mpr (.drop hgo ho hb))
          fun _ _ hb => statements_some.mpr (.drop hgo' ho' hb)⟩
      | some s =>
        obtain ⟨hp, p, k, e, f, h⟩ := step hreach hw₁
        exact ⟨_, k, e, f, h.past (r := some s) hp
          (fun _ _ hb => statements_some.mpr (.keep hgo ho hb))
          fun _ _ hb => statements_some.mpr (.keep hgo' ho' hb)⟩

end Production

namespace Cursor

open Production (statements endsProgram statements_split productions_local Enough)

theorem beside_ofSource {σ : Surroundings} {cs : Source} {d : Cursor} (ha : d.Aligned)
    (ht : d.tokens = cs.tokens ++ σ.after) (hp : d.place = σ.before)
    (hd : d.diagnostics = σ.noted) : Beside σ (ofSource cs) d where
  aligned := aligned_ofSource cs
  aligned' := ha
  tokens := by rw [ht, tokens_ofSource]
  place := hp.trans (Nat.zero_add _).symm
  diagnostics := by
    rw [hd, show (ofSource cs).diagnostics = #[] from rfl, Array.map_empty, Array.append_empty]

theorem statements_of_within {σ : Surroundings} {cs : Source} {d : Cursor} {k : Nat}
    (ho : ¬ σ.closed) (hw : Within σ (ofSource cs) d) (hk : 4 * cs.tokens.length + 4 ≤ k) :
    ∃ d', (statements k endsProgram).outcome d = (some (ofSource cs).program.1, d') ∧
      Beside σ (ofSource cs).program.2 d' := by
  have hn : Enough σ (ofSource cs).depth k (ofSource cs) 4 := by
    refine ⟨depth_ample _, ?_⟩
    rwa [tokens_ofSource, σ.after_eq_nil ho]
  have hs := (productions_local σ _ k).statements endsProgram _ _ ho rfl hw hn
  have hp := (ofSource cs).program_outcome (aligned_ofSource cs)
  rcases hd : (statements k endsProgram).outcome d with ⟨r, d'⟩
  obtain ⟨hr, hw', -⟩ := hs
  rw [hp, hd] at hr hw'
  cases hr
  exact ⟨d', rfl, hw'.toBeside⟩

/-- Reading `a ++ b` comes to a cursor that has only the tokens of `b` before it and the diagnostics
of `a` behind it. -/
theorem reaches_second {a b : Source} (hl : .symbol .lbrace ∉ a.tokens)
    (hs : a.tokens.getLast? = some (.symbol .semicolon)) :
    ∃ k d, d.Aligned ∧ d.tokens = b.tokens ∧ d.place = a.tokens.length ∧
      d.diagnostics = (ofSource a).program.2.diagnostics ∧ 4 * b.tokens.length + 4 ≤ k ∧
      ∀ q d', (statements k endsProgram).outcome d = (some q, d') →
        (ofSource (a ++ b)).program = ((ofSource a).program.1 ++ q, d') := by
  let σ : Surroundings := ⟨0, #[], b.tokens, True, fun h => absurd trivial h⟩
  have htokens : (ofSource (a ++ b)).tokens = a.tokens ++ b.tokens := by
    rw [tokens_ofSource, Source.tokens_append hs]
  have hbeside : Beside σ (ofSource a) (ofSource (a ++ b)) :=
    beside_ofSource (aligned_ofSource _) htokens rfl rfl
  have hclosing : (ofSource a).Closing := by
    constructor <;> rwa [tokens_ofSource]
  have hdepth := (ofSource (a ++ b)).depth_ample
  rw [htokens, List.length_append, ← tokens_ofSource a] at hdepth
  obtain ⟨p, k, e, d, h⟩ :=
    statements_split trivial hbeside (.inr hclosing) ⟨depth_ample _, hdepth⟩
  have hfirst := h.first.symm.trans ((ofSource a).program_outcome (aligned_ofSource a))
  obtain ⟨hp, rfl⟩ := Prod.mk.inj hfirst
  obtain rfl := Option.some.inj hp
  refine ⟨k, d, h.beside.aligned', ?_, ?_, ?_, h.depth, fun q d' hq => ?_⟩
  · rw [h.beside.tokens, h.finished]
    rfl
  · rw [h.beside.place, h.place, tokens_ofSource]
    exact Nat.zero_add _
  · rw [h.beside.diagnostics, Diagnostic.map_shift_zero]
    exact Array.empty_append
  · have hwhole := h.whole q d' hq
    rw [(ofSource (a ++ b)).program_outcome (aligned_ofSource _)] at hwhole
    obtain ⟨hp, hd⟩ := Prod.mk.inj hwhole
    exact Prod.ext (Option.some.inj hp) hd

/-- A text without a brace that ends with a semicolon, however wrong it is, has no bearing on what
is read after it: the whole gives the statements of both texts, and the diagnostics of both with
only the places of the latter moved on. -/
theorem program_append {a b : Source} (hl : .symbol .lbrace ∉ a.tokens)
    (hs : a.tokens.getLast? = some (.symbol .semicolon)) :
    (ofSource (a ++ b)).program.1 = (ofSource a).program.1 ++ (ofSource b).program.1 ∧
      (ofSource (a ++ b)).program.2.diagnostics = (ofSource a).program.2.diagnostics ++
        (ofSource b).program.2.diagnostics.map (Diagnostic.shift a.tokens.length) ∧
      (ofSource (a ++ b)).program.2.diagnostics.map (·.reason) =
        (ofSource a).program.2.diagnostics.map (·.reason) ++
          (ofSource b).program.2.diagnostics.map (·.reason) := by
  obtain ⟨k, d, ha, ht, hp, hd, hk, hwhole⟩ := reaches_second (b := b) hl hs
  let τ : Surroundings :=
    ⟨a.tokens.length, (ofSource a).program.2.diagnostics, [], False, fun _ => rfl⟩
  have hbeside : Beside τ (ofSource b) d :=
    beside_ofSource ha (by rw [ht, List.append_nil]) hp hd
  obtain ⟨d', hd', hend⟩ := statements_of_within not_false ⟨hbeside, False.elim⟩ hk
  rw [hwhole _ d' hd', hend.diagnostics]
  refine ⟨rfl, rfl, ?_⟩
  rw [Array.map_append, Array.map_map]
  rfl

theorem program_append_refused :
    let a : Source := "let 5;".toList
    let b : Source := "2)".toList
    a.tokens = [.keyword .letKey, .int "5", .symbol .semicolon] ∧
      (ofSource (a ++ b)).program.1 = [.expr (.int 5), .expr (.int 2)] ∧
      (ofSource (a ++ b)).program.2.diagnostics =
        #[⟨1, .unexpected .ident .int⟩, ⟨4, .noOperand (.symbol .rparen)⟩] := by
  intro a b
  have ha : (ofSource a).tokens = .keyword .letKey :: .int "5" :: Source.tokens ";".toList := rfl
  have hs : Source.next ";".toList = (.symbol .semicolon, []) := rfl
  rw [tokens_ofSource, Source.tokens_of_next hs (by simp), Source.tokens_nil] at ha
  have hl : .symbol .lbrace ∉ a.tokens := by simp [ha]
  have hsemi : a.tokens.getLast? = some (.symbol .semicolon) := by simp [ha]
  obtain ⟨hp, hd, -⟩ := program_append (b := b) hl hsemi
  have hda : (ofSource a).program.2.diagnostics = #[⟨1, .unexpected .ident .int⟩] := rfl
  have hdb : (ofSource b).program.2.diagnostics = #[⟨1, .noOperand (.symbol .rparen)⟩] := rfl
  rw [ha, hda, hdb] at hd
  exact ⟨ha, hp, by simpa [Diagnostic.shift] using hd⟩

end Cursor

end MonkeyLang
