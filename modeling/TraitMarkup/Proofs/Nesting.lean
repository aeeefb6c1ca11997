import TraitMarkup.Proofs.Scanning

/-!
# Nesting

Every token of a text stands at a depth, the number of steps in the indent of its line, and the
markers before it lead there from the depth of the token before (`Nesting`). The scan keeps an
indentation state in which the level is a whole number of steps (`Indentation.Sound`), and so the
kinds of the tokens that it finds are nested (`nesting_of_tokenize`).
-/

namespace TraitMarkup

open Token (Kind Body Payload)

variable {file : String} {p : Position} {t : Indentation}

namespace Indentation

/-! ## Steps and depths -/

/-- The level is a whole number of steps, and zero as long as there is no step. -/
structure Sound (t : Indentation) : Prop where
  pos : 0 < t.step.getD 1
  dvd : t.step.getD 1 ∣ t.level
  unfixed : t.step = none → t.level = 0

/-- The level in steps. -/
def depth (t : Indentation) : Nat := t.level / t.step.getD 1

theorem sound_fresh : fresh.Sound := ⟨by decide, by decide, fun _ => rfl⟩

theorem Sound.depth_unfixed (h : t.Sound) (hs : t.step = none) : t.depth = 0 := by
  rw [depth, h.unfixed hs, Nat.zero_div]

theorem markers_self (step n : Nat) : markers step n n = [] := by
  simp [markers]

/-- Markers count steps. -/
theorem markers_div {step old new : Nat} (hs : 0 < step) (ho : step ∣ old) (hn : step ∣ new) :
    markers step old new = markers 1 (old / step) (new / step) := by
  obtain ⟨a, rfl⟩ := ho
  obtain ⟨b, rfl⟩ := hn
  have hlt : step * a < step * b ↔ a < b := Nat.mul_lt_mul_left hs
  simp only [markers, hlt, Nat.mul_div_cancel_left _ hs, ← Nat.mul_sub, Nat.div_one]

theorem markers_lt {d d' : Nat} (h : d < d') :
    markers 1 d d' = .indent :: markers 1 (d + 1) d' := by
  have hn : d' - d = d' - (d + 1) + 1 := by omega
  by_cases h' : d + 1 < d'
  · simp only [markers, h, h', if_true, Nat.div_one, hn, List.replicate_succ]
  · obtain rfl : d' = d + 1 := by omega
    simp [markers]

theorem markers_gt {d d' : Nat} (h : d' < d) :
    markers 1 d d' = .dedent :: markers 1 (d - 1) d' := by
  have hn : d - d' = d - 1 - d' + 1 := by omega
  have h₁ : ¬d < d' := by omega
  have h₂ : ¬d - 1 < d' := by omega
  simp only [markers, h₁, h₂, if_false, Nat.div_one, hn, List.replicate_succ]

theorem markers_close (d : Nat) : markers 1 d 0 = List.replicate d .dedent := by
  simp [markers]

theorem measure_nil (t : Indentation) :
    t.measure [] = (.ok (markers (t.step.getD 1) t.level 0), { t with level := 0 }) := rfl

/-- An indent that is taken repeats the blank and is a whole number of steps. -/
theorem measure_cons {c : Char} {cs : List Char} {ms : List Marker} {t' : Indentation}
    (hm : t.measure (c :: cs) = (.ok ms, t')) : ∃ blank step width,
      blank = t.blank.getD c ∧ width = (c :: cs).length ∧ step = t.step.getD width ∧
      (∀ d ∈ c :: cs, d = blank) ∧ step ∣ width ∧ ms = markers step t.level width ∧
      t' = ⟨width, some blank, some step⟩ := by
  simp only [measure] at hm
  split at hm
  · cases hm
  split at hm
  · cases hm
  rename_i hblank hmod
  simp only [Prod.mk.injEq, Except.ok.injEq] at hm
  refine ⟨_, _, _, rfl, rfl, rfl, by simpa using hblank, ?_, hm.1.symm, hm.2.symm⟩
  exact Nat.dvd_of_mod_eq_zero (Decidable.not_not.mp hmod)

theorem measure_run {ws : List Char} {blank : Char} (hne : ws ≠ []) (hw : ∀ c ∈ ws, c = blank)
    (hb : t.blank.getD blank = blank) (hs : t.step.getD ws.length ∣ ws.length) :
    t.measure ws = (.ok (markers (t.step.getD ws.length) t.level ws.length),
      ⟨ws.length, some blank, some (t.step.getD ws.length)⟩) := by
  match ws with
  | [] => exact absurd rfl hne
  | c :: cs =>
    obtain rfl : c = blank := hw c List.mem_cons_self
    have hany : (c :: cs).any (· != c) = false := by simpa using hw
    simp only [measure, hb, hany, Nat.mod_eq_zero_of_dvd hs, ne_eq, not_true, Bool.false_eq_true,
      if_false]

/-- An indent that is taken leads to a depth, by markers from the old one. The first depth that is
not zero is one. -/
theorem measure_ok {indent : List Char} {ms : List Marker} {t' : Indentation} (h : t.Sound)
    (hm : t.measure indent = (.ok ms, t')) :
    t'.Sound ∧ ms = markers 1 t.depth t'.depth ∧ (t.step.isSome = false → t'.depth ≤ 1) ∧
      t'.step.isSome = (t.step.isSome || t'.depth != 0) := by
  match indent with
  | [] =>
    rw [measure_nil] at hm
    cases hm
    have hd : depth { t with level := 0 } = 0 := Nat.zero_div _
    refine ⟨⟨h.pos, Nat.dvd_zero _, fun _ => rfl⟩, ?_, fun _ => by omega, by simp [hd]⟩
    rw [hd, markers_div h.pos h.dvd (Nat.dvd_zero _), Nat.zero_div]
    rfl
  | c :: cs =>
    obtain ⟨blank, step, width, -, hw, hs, -, hdvd, rfl, rfl⟩ := measure_cons hm
    have hwidth : 0 < width := by simp [hw]
    have hstep : 0 < step := Nat.pos_of_dvd_of_pos hdvd hwidth
    have hd : depth ⟨width, some blank, some step⟩ = width / step := rfl
    have hpos : width / step ≠ 0 := Nat.ne_of_gt (Nat.div_pos (Nat.le_of_dvd hwidth hdvd) hstep)
    refine ⟨⟨hstep, hdvd, by simp⟩, ?_, ?_, by simp [hd, hpos]⟩
    · cases ht : t.step with
      | none =>
        rw [h.depth_unfixed ht, h.unfixed ht, markers_div hstep (Nat.dvd_zero _) hdvd, Nat.zero_div,
          hd]
      | some s =>
        obtain rfl : step = s := by simpa [ht] using hs
        have hlevel : step ∣ t.level := by simpa [ht] using h.dvd
        rw [markers_div hstep hlevel hdvd, hd, depth, ht]
        rfl
    · intro hnone
      have ht : t.step = none := by simpa using hnone
      obtain rfl : step = width := by simpa [ht] using hs
      exact Nat.le_of_eq (hd.trans (Nat.div_self hstep))

end Indentation

/-! ## Nested kinds -/

def Token.Kind.isMarker : Kind → Bool
  | .marker _ => true
  | _ => false

theorem Token.isMarker_eq (u : Token) : u.isMarker = u.kind.isMarker := by
  obtain ⟨body, lexeme, location⟩ := u
  cases body <;> rfl

/-- The kinds of tokens from a depth on. Before each token that is no marker, markers lead to its
depth from the one before, and at the end to zero. As long as the step is not fixed, a token is at
depth zero or, fixing it, one. -/
inductive Nesting : Bool → Nat → List Kind → Prop where
  | close (fixed : Bool) (depth : Nat) :
      Nesting fixed depth (List.replicate depth (.marker .dedent))
  | token {fixed : Bool} (depth : Nat) {depth' : Nat} {k : Kind} {ks : List Kind} :
      k.isMarker = false → (fixed = false → depth' ≤ 1) →
      Nesting (fixed || depth' != 0) depth' ks →
      Nesting fixed depth ((Indentation.markers 1 depth depth').map .marker ++ k :: ks)

/-- Tokens on one line are at one depth. -/
theorem Nesting.line {fixed : Bool} {depth : Nat} {ks rest : List Kind}
    (hf : fixed = false → depth = 0) (hk : ∀ k ∈ ks, k.isMarker = false)
    (h : Nesting fixed depth rest) : Nesting fixed depth (ks ++ rest) := by
  induction ks with
  | nil => exact h
  | cons k ks ih =>
    obtain ⟨hk, hks⟩ := List.forall_mem_cons.mp hk
    have hfixed : (fixed || depth != 0) = fixed := by
      cases fixed with
      | true => rfl
      | false => simp [hf rfl]
    have : Nesting fixed depth
        ((Indentation.markers 1 depth depth).map .marker ++ k :: (ks ++ rest)) :=
      .token depth hk (fun hf' => by simp [hf hf']) (by rw [hfixed]; exact ih hks)
    rwa [Indentation.markers_self] at this

/-! ## Lines with and without tokens -/

/-- What follows the first line of a text is cut like a text. -/
theorem Cut.rest {cs : List Char} {ps : List Piece} (h : Cut cs ps) {line : LogicalLine}
    {lines : List LogicalLine} (hl : logicalLines ps = line :: lines) :
    ∃ cs' ps', Cut cs' ps' ∧ logicalLines ps' = lines := by
  induction h generalizing line with
  | nil => cases hl
  | newline h =>
    cases hl
    exact ⟨_, _, h, rfl⟩
  | breach =>
    cases hl
    exact ⟨[], [], .nil, rfl⟩
  | blank _ _ _ ih | comment _ _ _ ih | token _ _ _ ih =>
    rw [logicalLines_cons (by simp)] at hl
    split at hl
    · cases hl
      exact ⟨[], [], .nil, rfl⟩
    · rename_i heq
      cases hl
      exact ih heq

/-- There are no tokens on a bare line. -/
theorem Cut.tokens_bare {cs : List Char} {ps : List Piece} (h : Cut cs ps) {line : LogicalLine}
    {lines : List LogicalLine} (hl : logicalLines ps = line :: lines)
    (hb : LogicalLine.isBare ps) : (place file p line).tokens = [] := by
  induction h generalizing p line with
  | nil => cases hl
  | newline => cases hl; rfl
  | token | breach => cases hb
  | @blank c _ _ _ _ _ ih =>
    rw [logicalLines_cons (by simp)] at hl
    split at hl
    · cases hl
      rfl
    · rename_i heq
      cases hl
      exact ih (p := p.after [c]) heq hb
  | comment _ hr h _ =>
    -- only a line feed may follow
    cases h with
    | nil | newline => cases hl; rfl
    | blank hb hn _ => exact absurd (hr _ rfl) hn
    | comment => exact absurd (hr _ rfl) (by decide)
    | breach _ _ hb _ =>
      obtain rfl := hr _ rfl
      cases hb
    | token hs _ _ =>
      obtain ⟨c, cs, rfl, hc, -⟩ := hs.form.exists_cons
      obtain rfl := hr c rfl
      cases hc

theorem Cut.isMarker_line {cs : List Char} {ps : List Piece} (h : Cut cs ps) {line : LogicalLine}
    {lines : List LogicalLine} (hl : logicalLines ps = line :: lines) (file : String)
    (p : Position) : ∀ k ∈ (place file p line).tokens.map Token.kind, k.isMarker = false := by
  intro k hk
  obtain ⟨u, hu, rfl⟩ := List.mem_map.mp hk
  obtain ⟨body, l, hmem, hbody, -⟩ := exists_piece_of_mem_place hu
  have hpiece : .token body l ∈ ps := by
    rw [← flatten_logicalLines ps, hl]
    simp [hmem]
  rw [← Token.isMarker_eq]
  exact (h.spells hpiece).isMarker hbody

/-- There are tokens on every other line. -/
theorem LogicalLine.tokens_ne_nil {line : LogicalLine} (hb : line.isBare = false)
    (he : (place file p line).error = none) : (place file p line).tokens ≠ [] := by
  induction line generalizing p with
  | nil => cases hb
  | cons piece line ih =>
    cases piece with
    | blank c => exact ih hb he
    | newline | comment => cases hb
    | token => exact List.cons_ne_nil _ _
    | breach => cases he

/-! ## The tokens of a text are nested -/

theorem Scan.nesting {lines : List LogicalLine} (hc : ∃ cs ps, Cut cs ps ∧ logicalLines ps = lines)
    (ht : t.Sound) (h : (ofLines file p t lines).error = none) :
    Nesting t.step.isSome t.depth ((ofLines file p t lines).tokens.map Token.kind) := by
  induction lines generalizing p t with
  | nil =>
    have hclose : t.close.1 = List.replicate t.depth .dedent := by
      rw [Indentation.close, Indentation.markers_div ht.pos ht.dvd (Nat.dvd_zero _), Nat.zero_div,
        Indentation.markers_close]
      rfl
    simp only [ofLines, hclose, List.map_replicate]
    exact .close _ _
  | cons line lines ih =>
    obtain ⟨markers, t', hm, hp, hrest, htokens⟩ := ofLines_cons h
    obtain ⟨cs, ps, hcut, hl⟩ := hc
    have hc' := hcut.rest hl
    obtain ⟨hi, hb⟩ := LogicalLine.indent_first hl
    cases hbare : line.isBare with
    | true =>
      have hline : (place file p line).tokens = [] := hcut.tokens_bare hl (hb ▸ hbare)
      simp only [Indentation.enter, hbare, if_true, Prod.mk.injEq, Except.ok.injEq] at hm
      obtain ⟨rfl, rfl⟩ := hm
      rw [htokens, hline]
      exact ih hc' ht hrest
    | false =>
      simp only [Indentation.enter, hbare, Bool.false_eq_true, if_false] at hm
      obtain ⟨ht', hmarkers, hone, hfixed⟩ := Indentation.measure_ok ht hm
      have hrest := ih hc' ht' hrest
      have hne := LogicalLine.tokens_ne_nil hbare hp
      have hkinds := hcut.isMarker_line hl file p
      rw [htokens]
      cases hline : (place file p line).tokens with
      | nil => exact absurd hline hne
      | cons u us =>
        rw [hline, List.map_cons] at hkinds
        obtain ⟨hu, hus⟩ := List.forall_mem_cons.mp hkinds
        have hzero : t'.step.isSome = false → t'.depth = 0 :=
          fun hnone => ht'.depth_unfixed (by simpa using hnone)
        have := Nesting.token t.depth hu hone (hfixed ▸ hrest.line hzero hus)
        simpa [hmarkers, Function.comp_def, Token.ofMarker, Token.kind, Body.kind] using this

/-- The tokens of a text are nested. -/
theorem nesting_of_tokenize {source : String} {tokens : List Token}
    (h : tokenize file source = .ok tokens) : Nesting false 0 (tokens.map Token.kind) := by
  obtain ⟨he, rfl⟩ := Scan.result_eq_ok.mp h
  exact Scan.nesting ⟨_, _, cut_pieces _, rfl⟩ Indentation.sound_fresh he

end TraitMarkup
