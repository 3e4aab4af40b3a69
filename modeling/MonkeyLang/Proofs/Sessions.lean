import MonkeyLang.Proofs.Evaluation.Composition
import MonkeyLang.Proofs.Evaluation.Frame
import MonkeyLang.Proofs.Evaluation.Lockstep
import MonkeyLang.Repl

namespace MonkeyLang

open Eval

/-- The worlds are the same but for what has been logged. -/
structure World.SameButLog (w w' : World) : Prop where
  heap : w'.heap = w.heap
  printed : w'.printed = w.printed

theorem World.lockstep_sameButLog :
    Lockstep (fun _ => True) (fun _ => True) World.SameButLog where
  hereditary := .of_all fun _ => trivial
  returned := Iff.rfl
  function := ⟨fun _ _ _ => trivial, fun _ => trivial⟩
  holds _ _ _ _ _ _ := trivial
  get? h s x _ := by rw [h.heap]
  size h := by rw [h.heap]
  openScope h s := ⟨congrArg (Heap.openScope · (some s)) h.heap, h.printed⟩
  bind h s x _ v _ := ⟨congrArg (Heap.bind · s x v) h.heap, h.printed⟩
  print h text := ⟨h.heap, congrArg (· ++ text) h.printed⟩
  note h _ := ⟨h.heap, h.printed⟩

theorem Eval.run_forM_note (es : Array Log.Event) (w : World) :
    ∃ w', w.SameButLog w' ∧ (es.forM note).run w = (.ok (), w') := by
  rw [Array.forM, ← Array.foldlM_toList]
  generalize es.toList = es
  induction es generalizing w with
  | nil => exact ⟨w, ⟨rfl, rfl⟩, rfl⟩
  | cons e es ih =>
    obtain ⟨w', hw, hr⟩ := ih (w.note e)
    refine ⟨w', ⟨hw.heap, hw.printed⟩, ?_⟩
    rw [List.foldlM_cons, run_bind_ok (run_note e w), hr]

namespace Repl

/-- The pieces of an input, which is cut after each line break. -/
def pieces : List UInt8 → List (List UInt8)
  | [] => []
  | b :: bs =>
      if b = 10 then [b] :: pieces bs
      else
        match pieces bs with
        | [] => [[b]]
        | l :: ls => (b :: l) :: ls

/-- What a line leads to, and the heap after it, by what its text is and the heap before it. -/
def respond (depth : Nat) (s : ScopeId) (line : String) (h : Heap) : Except Stop Turn × Heap :=
  let (p, c) := (Cursor.ofSource line.toList).program
  if c.diagnostics.isEmpty then
    match (p.eval depth s).run { heap := h } with
    | (.ok v, w) => (.ok ⟨w.printed, v.text ++ "\n"⟩, w.heap)
    | (.error (.fault f), w) => (.ok ⟨w.printed, "ERROR: " ++ f.message ++ "\n"⟩, w.heap)
    | (.error .tooDeep, w) => (.error .tooDeep, w.heap)
  else (.ok ⟨"", String.join (c.diagnostics.toList.map fun d => "\t" ++ d.message ++ "\n")⟩, h)

/-- What the turns of a session were, why it ended, and what heap it left. -/
structure Course where
  turns : List Turn
  ending : Ending
  heap : Heap

def Course.cons (a : Turn) (c : Course) : Course := { c with turns := a :: c.turns }

/-- The lines of a session are answered one after the other, each by the heap that the one before
it left, up to one that is no text or whose evaluation does not end. -/
def course (depth : Nat) (s : ScopeId) (h : Heap) : List (List UInt8) → Course
  | [] => ⟨[], .endOfInput, h⟩
  | l :: ls =>
      match decode l with
      | none => ⟨[], .notText, h⟩
      | some line =>
          match respond depth s line h with
          | (.ok a, h) => (course depth s h ls).cons a
          | (.error _, h) => ⟨[], .tooDeep, h⟩

section

variable {depth : Nat} {s : ScopeId} {h h' : Heap} {l : List UInt8} {line : String}

theorem course_notText (hd : decode l = none) (ls : List (List UInt8)) :
    course depth s h (l :: ls) = ⟨[], .notText, h⟩ := by
  rw [course, hd]

theorem course_tooDeep {e : Stop} (hd : decode l = some line)
    (hr : respond depth s line h = (.error e, h')) (ls : List (List UInt8)) :
    course depth s h (l :: ls) = ⟨[], .tooDeep, h'⟩ := by
  simp only [course, hd, hr]

theorem course_turn {a : Turn} (hd : decode l = some line)
    (hr : respond depth s line h = (.ok a, h')) (ls : List (List UInt8)) :
    course depth s h (l :: ls) = (course depth s h' ls).cons a := by
  simp only [course, hd, hr]

end

theorem run_report (depth : Nat) (s : ScopeId) (p : Program) (w : World) :
    (report depth s p).run w = match (p.eval depth s).run w with
      | (.ok v, w) => (.ok (v.text ++ "\n"), w)
      | (.error (.fault f), w) => (.ok ("ERROR: " ++ f.message ++ "\n"), w)
      | (.error .tooDeep, w) => (.error .tooDeep, w) := by
  rw [report, run_tryCatch]
  rcases h : (p.eval depth s).run w with ⟨e | v, w'⟩
  · rw [run_bind_error h]
    cases e <;> rfl
  · rw [run_bind_ok h]
    rfl

theorem run_answer (depth : Nat) (s : ScopeId) (line : String) (w : World) :
    ∃ w', w.SameButLog w' ∧ (answer depth s line).run w =
      let (p, c) := (Cursor.ofSource line.toList).program
      (if c.diagnostics.isEmpty then report depth s p else return refusal c.diagnostics).run w' := by
  unfold answer
  generalize (Cursor.ofSource line.toList).program = pc
  obtain ⟨p, c⟩ := pc
  obtain ⟨w', hw, hr⟩ := run_forM_note c.events (w.note (.lineRead line))
  refine ⟨w', ⟨hw.heap, hw.printed⟩, ?_⟩
  rw [run_bind_ok (run_note _ w)]
  exact run_bind_ok hr

theorem turn_eq_respond (depth : Nat) (s : ScopeId) (line : String) (w : World) :
    ((turn depth s line w).1, (turn depth s line w).2.heap) = respond depth s line w.heap := by
  obtain ⟨w', hw, hr⟩ := run_answer depth s line { w with printed := "" }
  unfold turn respond
  rw [hr]
  generalize (Cursor.ofSource line.toList).program = pc
  obtain ⟨p, c⟩ := pc
  dsimp only
  split
  · -- The log is not the same, which the program cannot see.
    have hw' : World.SameButLog { heap := w.heap } w' := ⟨hw.heap, hw.printed⟩
    obtain ⟨hsame, -, hheap, hprinted⟩ :=
      World.lockstep_sameButLog.program depth s (p := p) (fun _ _ => trivial) hw'
    rw [run_report]
    rcases hrun : (p.eval depth s).run { heap := w.heap } with ⟨r, w₁⟩
    rcases hrun' : (p.eval depth s).run w' with ⟨r', w₁'⟩
    rw [hrun, hrun'] at hsame hheap hprinted
    cases hsame
    dsimp only at hheap hprinted
    cases r with
    | ok v => simp only [Except.map, hheap, hprinted]
    | error e => cases e <;> simp only [Except.map, hheap, hprinted]
  · simp only [run_pure, Except.map, hw.heap, hw.printed, refusal]

/-- The lines of an input: each is there whole, a line break ends a line, and only at the end of the
input a line may lack it. -/
structure Cut (input : List UInt8) (ls : List (List UInt8)) : Prop where
  whole : ls.flatten = input
  nonempty : ∀ l ∈ ls, l ≠ []
  within : ∀ l ∈ ls, 10 ∉ l.dropLast
  ended : ∀ l ∈ ls.dropLast, l.getLast? = some 10

theorem pieces_eq_nil_iff {bs : List UInt8} : pieces bs = [] ↔ bs = [] := by
  cases bs with
  | nil => simp [pieces]
  | cons b bs =>
    unfold pieces
    split
    · simp
    · split <;> simp

theorem cut_pieces (input : List UInt8) : Cut input (pieces input) := by
  induction input with
  | nil => exact ⟨rfl, nofun, nofun, nofun⟩
  | cons b bs ih =>
    unfold pieces
    split
    · next hb =>
      subst hb
      refine ⟨congrArg (10 :: ·) ih.whole, ?_, ?_, ?_⟩
      · exact List.forall_mem_cons.mpr ⟨nofun, ih.nonempty⟩
      · exact List.forall_mem_cons.mpr ⟨nofun, ih.within⟩
      · cases hp : pieces bs with
        | nil => exact nofun
        | cons l ls =>
          rw [List.dropLast_cons_cons]
          exact List.forall_mem_cons.mpr ⟨rfl, hp ▸ ih.ended⟩
    · next hb =>
      cases hp : pieces bs with
      | nil =>
        rw [pieces_eq_nil_iff.mp hp]
        exact ⟨rfl, by simp, by simp, nofun⟩
      | cons l ls =>
        rw [hp] at ih
        obtain ⟨hl, hls⟩ := List.forall_mem_cons.mp ih.nonempty
        obtain ⟨hw, hws⟩ := List.forall_mem_cons.mp ih.within
        refine ⟨congrArg (b :: ·) ih.whole, ?_, ?_, ?_⟩
        · exact List.forall_mem_cons.mpr ⟨nofun, hls⟩
        · refine List.forall_mem_cons.mpr ⟨?_, hws⟩
          rw [List.dropLast_cons_of_ne_nil hl, List.mem_cons, not_or]
          exact ⟨Ne.symm hb, hw⟩
        · cases ls with
          | nil => exact nofun
          | cons l' ls =>
            have hend := ih.ended
            rw [List.dropLast_cons_cons] at hend ⊢
            obtain ⟨he, hes⟩ := List.forall_mem_cons.mp hend
            refine List.forall_mem_cons.mpr ⟨?_, hes⟩
            obtain ⟨c, l, rfl⟩ := List.exists_cons_of_ne_nil hl
            rwa [List.getLast?_cons_cons]

example : pieces [97, 10, 10, 98] = [[97, 10], [10], [98]] := by decide

theorem pieces_of_readLine_nil {input rest : List UInt8} (h : readLine input = ([], rest)) :
    pieces input = [] ∧ rest = [] := by
  cases input with
  | nil =>
    cases h
    exact ⟨rfl, rfl⟩
  | cons b bs =>
    unfold readLine at h
    split at h <;> cases h

theorem pieces_of_readLine {input l rest : List UInt8} (h : readLine input = (l, rest))
    (hl : l ≠ []) : pieces input = l :: pieces rest := by
  induction input generalizing l with
  | nil =>
    cases h
    exact absurd rfl hl
  | cons b bs ih =>
    unfold readLine at h
    rw [pieces]
    split at h
    · next hb =>
      cases h
      rw [if_pos hb]
    · next hb =>
      rw [if_neg hb]
      rcases hr : readLine bs with ⟨_ | ⟨c, l'⟩, rest'⟩
      · rw [hr] at h
        cases h
        obtain ⟨hp, rfl⟩ := pieces_of_readLine_nil hr
        rw [hp]
        rfl
      · rw [hr] at h
        cases h
        rw [ih hr (List.cons_ne_nil c l')]

theorem pieces_append {u v : List UInt8} (hu : u = [] ∨ u.getLast? = some 10) :
    pieces (u ++ v) = pieces u ++ pieces v := by
  induction u with
  | nil => rfl
  | cons b bs ih =>
    have hu : (b :: bs).getLast? = some 10 := hu.resolve_left nofun
    rw [List.cons_append, pieces, pieces]
    by_cases hb : b = 10
    · have hbs : bs = [] ∨ bs.getLast? = some 10 := by
        cases bs with
        | nil => exact .inl rfl
        | cons c bs => exact .inr (by rwa [List.getLast?_cons_cons] at hu)
      rw [if_pos hb, if_pos hb, ih hbs]
      rfl
    · -- The line break is still to come, so this byte belongs to a line of `u`.
      obtain ⟨c, cs, rfl⟩ : ∃ c cs, bs = c :: cs := by
        refine List.exists_cons_of_ne_nil ?_
        rintro rfl
        exact hb (Option.some.inj hu)
      rw [List.getLast?_cons_cons] at hu
      rw [if_neg hb, if_neg hb, ih (.inr hu)]
      cases hp : pieces (c :: cs) with
      | nil => cases pieces_eq_nil_iff.mp hp
      | cons l ls => rfl

/-- The transcript after these turns. -/
def Transcript.after (t : Transcript) (as : List Turn) : Transcript :=
  as.foldl (fun t a => t.prompted.answered a) t

theorem Transcript.shown_after (t : Transcript) (as : List Turn) :
    (t.after as).shown = t.shown ++ String.join (as.map fun a => prompt ++ a.answer) := by
  induction as generalizing t with
  | nil => exact String.append_empty.symm
  | cons a as ih =>
    rw [after, List.foldl_cons, ← after, ih, List.map_cons, String.join_cons]
    simp only [answered, prompted, String.append_assoc]

theorem Transcript.printed_after (t : Transcript) (as : List Turn) :
    (t.after as).printed = t.printed ++ String.join (as.map (·.printed)) := by
  induction as generalizing t with
  | nil => exact String.append_empty.symm
  | cons a as ih =>
    rw [after, List.foldl_cons, ← after, ih, List.map_cons, String.join_cons]
    simp only [answered, prompted, String.append_assoc]

theorem play_course (depth : Nat) (s : ScopeId) (t : Transcript) (w : World)
    (input : List UInt8) :
    let c := course depth s w.heap (pieces input)
    (play depth s t w input).toTranscript = (t.after c.turns).prompted ∧
      (play depth s t w input).ending = c.ending ∧ (play depth s t w input).world.heap = c.heap := by
  fun_induction play depth s t w input with
  | case1 t w input rest h =>
    rw [(pieces_of_readLine_nil h).1]
    exact ⟨rfl, rfl, rfl⟩
  | case2 t w input b bs rest h hd =>
    rw [pieces_of_readLine h nofun, course_notText hd]
    exact ⟨rfl, rfl, rfl⟩
  | case3 t w input b bs rest h line hd a w₁ ht ih =>
    have hr := turn_eq_respond depth s line w
    rw [ht] at hr
    rw [pieces_of_readLine h nofun, course_turn hd hr.symm]
    exact ih
  | case4 t w input b bs rest h line hd e w₁ ht =>
    have hr := turn_eq_respond depth s line w
    rw [ht] at hr
    rw [pieces_of_readLine h nofun, course_tooDeep hd hr.symm]
    exact ⟨rfl, rfl, rfl⟩

theorem play_shows (depth : Nat) (s : ScopeId) (w : World) (input : List UInt8) :
    let c := course depth s w.heap (pieces input)
    let e := play depth s {} w input
    e.shown = String.join (c.turns.map fun a => prompt ++ a.answer) ++ prompt ∧
      e.printed = String.join (c.turns.map (·.printed)) ∧
      e.ending = c.ending ∧ e.world.heap = c.heap := by
  obtain ⟨ht, he, hh⟩ := play_course depth s {} w input
  refine ⟨?_, ?_, he, hh⟩
  · rw [ht, Transcript.prompted, Transcript.shown_after, String.empty_append]
  · rw [ht, Transcript.prompted, Transcript.printed_after, String.empty_append]

/-- More lines only matter where those before them were all answered. -/
theorem course_append (depth : Nat) (s : ScopeId) (h : Heap) (ls ls' : List (List UInt8)) :
    let c := course depth s h ls
    let c' := course depth s c.heap ls'
    (c.ending = .endOfInput →
      course depth s h (ls ++ ls') = ⟨c.turns ++ c'.turns, c'.ending, c'.heap⟩) ∧
    (c.ending ≠ .endOfInput → course depth s h (ls ++ ls') = c) := by
  induction ls generalizing h with
  | nil => exact ⟨fun _ => rfl, fun he => absurd rfl he⟩
  | cons l ls ih =>
    rw [List.cons_append]
    cases hd : decode l with
    | none =>
      rw [course_notText hd, course_notText hd]
      exact ⟨nofun, fun _ => rfl⟩
    | some line =>
      rcases hr : respond depth s line h with ⟨e | a, h'⟩
      · rw [course_tooDeep hd hr, course_tooDeep hd hr]
        exact ⟨nofun, fun _ => rfl⟩
      · rw [course_turn hd hr, course_turn hd hr]
        obtain ⟨hend, hstop⟩ := ih h'
        exact ⟨fun he => congrArg (Course.cons a) (hend he),
          fun he => congrArg (Course.cons a) (hstop he)⟩

/-- Each line is answered up to the one, if any, that is no text or does not come to an end. -/
theorem course_stops (depth : Nat) (s : ScopeId) (h : Heap) (ls : List (List UInt8)) :
    let c := course depth s h ls
    (c.ending = .endOfInput ∧ c.turns.length = ls.length) ∨
      ∃ l, ls[c.turns.length]? = some l ∧
        ((c.ending = .notText ∧ decode l = none) ∨ (c.ending = .tooDeep ∧ (decode l).isSome)) := by
  induction ls generalizing h with
  | nil => exact .inl ⟨rfl, rfl⟩
  | cons l ls ih =>
    cases hd : decode l with
    | none =>
      rw [course_notText hd]
      exact .inr ⟨l, rfl, .inl ⟨rfl, hd⟩⟩
    | some line =>
      rcases hr : respond depth s line h with ⟨e | a, h'⟩
      · rw [course_tooDeep hd hr]
        exact .inr ⟨l, rfl, .inr ⟨rfl, by rw [hd]; rfl⟩⟩
      · rw [course_turn hd hr]
        exact (ih h').imp (And.imp_right fun hl => congrArg (· + 1) hl) id

end Repl

/-- A session answers its lines one after the other in one scope, and shows a prompt before each
answer and at its end. What a line leads to depends on its text and on the heap before it, and what
it did before it failed or returned stays done. A session on complete lines and more is the session
on these lines and then, from the scopes they left, that on the rest. -/
theorem Repl.session_course (depth : Nat) (input : List UInt8) :
    let ls := pieces input
    let c := course depth fresh.2 fresh.1.heap ls
    let e := session depth input
    Cut input ls ∧
    (e.shown = String.join (c.turns.map fun a => prompt ++ a.answer) ++ prompt ∧
      e.printed = String.join (c.turns.map (·.printed)) ∧
      e.ending = c.ending ∧ e.world.heap = c.heap) ∧
    ((c.ending = .endOfInput ∧ c.turns.length = ls.length) ∨
      ∃ l, ls[c.turns.length]? = some l ∧
        ((c.ending = .notText ∧ decode l = none) ∨ (c.ending = .tooDeep ∧ (decode l).isSome))) ∧
    (∀ s line w, ((turn depth s line w).1, (turn depth s line w).2.heap) =
      respond depth s line w.heap) ∧
    (∀ s q t r v w w₁ res w₂, (Block.eval depth s q).run w = (.ok v, w₁) → v.isReturned = false →
      (t.eval depth s).run w₁ = (res, w₂) → (∀ u, res = .ok u → u.isReturned = true) →
        (Program.eval depth s (q ++ t :: r)).run w = (res.map Value.unwrap, w₂) ∧
          w₁.heap.Framed s t.lets w₂.heap) ∧
    (∀ u v, input = u ++ v → (u = [] ∨ u.getLast? = some 10) →
      let d := session depth u
      (d.ending = .endOfInput → ∃ shown, d.shown = shown ++ prompt ∧
        let d' := play depth fresh.2 {} d.world v
        e.shown = shown ++ d'.shown ∧ e.ending = d'.ending ∧ e.world.heap = d'.world.heap) ∧
      (d.ending ≠ .endOfInput →
        e.shown = d.shown ∧ e.ending = d.ending ∧ e.world.heap = d.world.heap)) := by
  intro ls c e
  have he := play_shows depth fresh.2 fresh.1 input
  refine ⟨cut_pieces input, he, course_stops depth fresh.2 fresh.1.heap ls,
    fun s line w => turn_eq_respond depth s line w, ?_, ?_⟩
  · intro s q t r v w w₁ res w₂ hq hv ht hs
    refine ⟨Program.eval_stopped hq hv ht hs, ?_⟩
    have hw := (t.writes (apply_preserves depth) s (List.Subset.refl _)).extends w₁
    rw [show (t.evalWith (apply depth) s).run w₁ = (res, w₂) from ht] at hw
    exact hw.framed
  · rintro u v rfl hu d
    obtain ⟨hds, -, hde, hdh⟩ := play_shows depth fresh.2 fresh.1 u
    obtain ⟨hes, -, hee, heh⟩ := he
    obtain ⟨hend, hstop⟩ := course_append depth fresh.2 fresh.1.heap (pieces u) (pieces v)
    rw [pieces_append hu] at hes hee heh
    refine ⟨fun hd => ⟨_, hds, ?_⟩, fun hd => ?_⟩
    · obtain ⟨hvs, -, hve, hvh⟩ := play_shows depth fresh.2 d.world v
      rw [show d.world.heap = _ from hdh] at hvs hve hvh
      rw [hend (hde.symm.trans hd)] at hes hee heh
      refine ⟨?_, hee.trans hve.symm, heh.trans hvh.symm⟩
      rw [hvs, ← String.append_assoc, ← String.join_append, ← List.map_append]
      exact hes
    · rw [hstop fun h => hd (hde.trans h)] at hes hee heh
      exact ⟨hes.trans hds.symm, hee.trans hde.symm, heh.trans hdh.symm⟩

end MonkeyLang
