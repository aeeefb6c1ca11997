import TraitMarkup.Proofs.RoundTrip

/-!
# Canonical tokens

Which lists of tokens are those of some text. Nested kinds, which are given step by step, are
described here by their maximal runs of markers and by the numbers of the two markers in front of
each place (`nesting_iff_blocks`).
-/

namespace TraitMarkup

open Token (Kind Body Payload)

variable {fixed : Bool} {d d' : Nat} {k : Kind} {ks ms before run after : List Kind}

/-! ## Runs of markers -/

/-- A run of markers that no marker stands next to. -/
structure MarkerRun (ks before run after : List Kind) : Prop where
  split : ks = before ++ (run ++ after)
  ne_nil : run ≠ []
  isMarker : ∀ k ∈ run, k.isMarker
  left : ∀ k ∈ before.getLast?, k.isMarker = false
  right : ∀ k ∈ after.head?, k.isMarker = false

theorem MarkerRun.first (hm : ∀ k ∈ ms, k.isMarker) (hne : ms ≠ []) (hk : k.isMarker = false)
    (ks : List Kind) : MarkerRun (ms ++ k :: ks) [] ms (k :: ks) :=
  ⟨rfl, hne, hm, by simp, by simpa using hk⟩

theorem MarkerRun.append (h : MarkerRun ks before run after) (hk : k.isMarker = false)
    (ms : List Kind) : MarkerRun (ms ++ k :: ks) (ms ++ k :: before) run after := by
  refine ⟨?_, h.ne_nil, h.isMarker, ?_, h.right⟩
  · rw [h.split, List.append_assoc, List.cons_append]
  · intro x hx
    rw [List.getLast?_append_of_ne_nil _ (List.cons_ne_nil _ _), List.getLast?_cons] at hx
    cases hb : before.getLast? with
    | none =>
      rw [hb] at hx
      cases hx
      exact hk
    | some y =>
      rw [hb] at hx
      cases hx
      exact h.left _ hb

/-- A run that starts with the first of the markers ends with the last of them. -/
theorem MarkerRun.eq_first (h : MarkerRun (ms ++ k :: ks) [] run after)
    (hm : ∀ k ∈ ms, k.isMarker) (hk : k.isMarker = false) : run = ms ∧ after = k :: ks := by
  have hsplit : ms ++ k :: ks = run ++ after := h.split
  rcases List.append_eq_append_iff.mp hsplit with ⟨ys, hrun, hks⟩ | ⟨ys, hms, hafter⟩
  · match ys with
    | [] => exact ⟨by simpa using hrun, hks.symm⟩
    | y :: ys =>
      obtain ⟨rfl, -⟩ := List.cons.inj hks
      have := h.isMarker k (by simp [hrun])
      rw [hk] at this
      cases this
  · match ys with
    | [] => exact ⟨by simpa using hms.symm, hafter⟩
    | y :: ys =>
      have := h.right y (by rw [hafter]; rfl)
      rw [hm y (by simp [hms])] at this
      cases this

/-- A run with nothing but markers before it starts with the first of them. -/
theorem MarkerRun.before_eq_nil (h : MarkerRun ks before run after)
    (hm : ∀ k ∈ before, k.isMarker) : before = [] := by
  cases hlast : before.getLast? with
  | none => exact List.getLast?_eq_none_iff.mp hlast
  | some x =>
    have := h.left x hlast
    rw [hm x (List.mem_of_getLast? hlast)] at this
    cases this

/-- Markers at the start are a run, and each later run is one of what follows them. -/
theorem MarkerRun.cases (h : MarkerRun (ms ++ k :: ks) before run after)
    (hm : ∀ k ∈ ms, k.isMarker) (hk : k.isMarker = false) :
    (before = [] ∧ run = ms ∧ after = k :: ks) ∨
      ∃ before', before = ms ++ k :: before' ∧ MarkerRun ks before' run after := by
  rcases List.append_eq_append_iff.mp h.split with ⟨xs, hbefore, hrest⟩ | ⟨xs, hms, hrest⟩
  · -- the run starts behind the markers
    match xs with
    | [] =>
      obtain ⟨r, run, rfl⟩ := List.exists_cons_of_ne_nil h.ne_nil
      obtain ⟨rfl, -⟩ := List.cons.inj hrest
      rw [h.isMarker k List.mem_cons_self] at hk
      cases hk
    | x :: xs =>
      obtain ⟨rfl, hks⟩ := List.cons.inj hrest
      refine .inr ⟨xs, hbefore, hks, h.ne_nil, h.isMarker, ?_, h.right⟩
      intro y hy
      apply h.left
      rw [hbefore, List.getLast?_append_of_ne_nil _ (List.cons_ne_nil _ _), List.getLast?_cons,
        Option.mem_def.mp hy]
      rfl
  · -- the run starts with one of the markers
    obtain rfl := h.before_eq_nil fun x hx => hm x (by simp [hms, hx])
    exact .inl ⟨rfl, h.eq_first hm hk⟩

/-! ## Markers that lead to a depth -/

theorem kind_markers (d d' : Nat) :
    (∃ n, d' = d + n ∧
      (Indentation.markers 1 d d').map Kind.marker = List.replicate n (.marker .indent)) ∨
    ∃ n, d = d' + n ∧
      (Indentation.markers 1 d d').map Kind.marker = List.replicate n (.marker .dedent) := by
  by_cases h : d < d'
  · refine .inl ⟨d' - d, by omega, ?_⟩
    simp only [Indentation.markers, h, if_true, Nat.div_one, List.map_replicate]
  · refine .inr ⟨d - d', by omega, ?_⟩
    simp only [Indentation.markers, h, if_false, Nat.div_one, List.map_replicate]

theorem isMarker_markers (d d' : Nat) :
    ∀ k ∈ (Indentation.markers 1 d d').map Kind.marker, k.isMarker := by
  intro k hk
  obtain ⟨m, -, rfl⟩ := List.mem_map.mp hk
  rfl

theorem count_markers (d d' : Nat) :
    ((Indentation.markers 1 d d').map Kind.marker).count (.marker .dedent) + d' =
      d + ((Indentation.markers 1 d d').map Kind.marker).count (.marker .indent) := by
  rcases kind_markers d d' with ⟨n, rfl, h⟩ | ⟨n, rfl, h⟩
  · rw [h]
    simp [List.count_replicate]
  · rw [h]
    simp [List.count_replicate, Nat.add_comm]

theorem count_prefix_markers {pre : List Kind}
    (h : pre <+: (Indentation.markers 1 d d').map Kind.marker) :
    pre.count (.marker .dedent) ≤ d + pre.count (.marker .indent) := by
  rcases kind_markers d d' with ⟨n, rfl, hm⟩ | ⟨n, rfl, hm⟩
  · rw [hm, List.prefix_replicate_iff] at h
    rw [h.2]
    simp [List.count_replicate]
  · rw [hm, List.prefix_replicate_iff] at h
    rw [h.2]
    simp only [List.count_replicate_self]
    omega

/-- Markers of one kind that do not close more blocks than are open lead to a depth. -/
theorem exists_markers (hrun : (∀ k ∈ ms, k = .marker .indent) ∨ ∀ k ∈ ms, k = .marker .dedent)
    (hcount : ms.count (.marker .dedent) ≤ d + ms.count (.marker .indent)) :
    ∃ d', ms = (Indentation.markers 1 d d').map .marker := by
  rcases hrun with h | h
  · refine ⟨d + ms.length, ?_⟩
    rcases kind_markers d (d + ms.length) with ⟨n, hn, hm⟩ | ⟨n, hn, hm⟩
    · obtain rfl : n = ms.length := by omega
      rw [hm]
      exact List.eq_replicate_of_mem h
    · obtain rfl : n = 0 := by omega
      obtain rfl : ms = [] := List.length_eq_zero_iff.mp (by omega)
      exact hm.symm
  · have hms := List.eq_replicate_of_mem h
    have hlen : ms.length ≤ d := by
      rw [hms] at hcount
      simpa [List.count_replicate] using hcount
    refine ⟨d - ms.length, ?_⟩
    rcases kind_markers d (d - ms.length) with ⟨n, hn, hm⟩ | ⟨n, hn, hm⟩
    · obtain rfl : n = 0 := by omega
      obtain rfl : ms = [] := List.length_eq_zero_iff.mp (by omega)
      exact hm.symm
    · obtain rfl : n = ms.length := by omega
      rw [hm]
      exact hms

/-! ## Nesting from outside -/

/-- Kinds from a depth on. Runs of markers open or close blocks but not both, and a run that opens
blocks has something to open them for. No more blocks are closed than are open, and in the end all
are closed. As long as the step is not fixed, the first run that opens blocks opens one. -/
structure Blocks (fixed : Bool) (d : Nat) (ks : List Kind) : Prop where
  uniform {before run after : List Kind} : MarkerRun ks before run after →
    (∀ k ∈ run, k = .marker .indent) ∧ after ≠ [] ∨ ∀ k ∈ run, k = .marker .dedent
  count {pre : List Kind} : pre <+: ks →
    pre.count (.marker .dedent) ≤ d + pre.count (.marker .indent)
  balance : ks.count (.marker .dedent) = d + ks.count (.marker .indent)
  first {before run after : List Kind} : fixed = false → MarkerRun ks before run after →
    .marker .indent ∉ before → .marker .indent ∈ run → run.length = 1

theorem Blocks.close (fixed : Bool) (d : Nat) :
    Blocks fixed d (List.replicate d (.marker .dedent)) := by
  have hrun : ∀ {before run after : List Kind},
      MarkerRun (List.replicate d (.marker .dedent)) before run after →
      ∀ k ∈ run, k = .marker .dedent := by
    intro before run after h k hk
    apply List.eq_of_mem_replicate (n := d)
    rw [h.split]
    simp [hk]
  refine ⟨fun h => .inr (hrun h), ?_, by simp [List.count_replicate], ?_⟩
  · intro pre h
    rw [List.prefix_replicate_iff] at h
    rw [h.2]
    simp [List.count_replicate, h.1]
  · intro before run after _ h _ hk
    cases hrun h _ hk

theorem count_token (hk : k.isMarker = false) (ms ks : List Kind) (m : Marker) :
    (ms ++ k :: ks).count (.marker m) = ms.count (.marker m) + ks.count (.marker m) := by
  have hne : k ≠ .marker m := by
    rintro rfl
    cases hk
  rw [List.count_append, List.count_cons_of_ne hne]

/-- While the step is not fixed, there is at most one marker to lead to a depth, and it opens a
block. -/
theorem markers_unfixed (hone : d' ≤ 1) :
    (d' = 0 ∧ Indentation.markers 1 0 d' = []) ∨
      (d' = 1 ∧ Indentation.markers 1 0 d' = [.indent]) := by
  match d' with
  | 0 => exact .inl ⟨rfl, rfl⟩
  | 1 => exact .inr ⟨rfl, rfl⟩

theorem Blocks.of_token (h : Blocks fixed d ((Indentation.markers 1 d d').map .marker ++ k :: ks))
    (hd : fixed = false → d = 0) (hk : k.isMarker = false) :
    (fixed = false → d' ≤ 1) ∧ Blocks (fixed || d' != 0) d' ks := by
  have hcount := count_markers d d'
  refine ⟨?_, ?_, ?_, ?_, ?_⟩
  · intro hf
    obtain rfl := hd hf
    rcases kind_markers 0 d' with ⟨n, rfl, hm⟩ | ⟨n, hn, -⟩
    · rcases Nat.eq_zero_or_pos n with rfl | hn
      · exact Nat.zero_le _
      · have hmem : .marker .indent ∈ (Indentation.markers 1 0 (0 + n)).map Kind.marker := by
          rw [hm]
          exact List.mem_replicate.mpr ⟨Nat.ne_of_gt hn, rfl⟩
        have hrun := MarkerRun.first (isMarker_markers 0 (0 + n)) (List.ne_nil_of_mem hmem) hk ks
        have hlen := h.first hf hrun List.not_mem_nil hmem
        rw [hm, List.length_replicate] at hlen
        omega
    · omega
  · intro before run after hrun
    exact h.uniform (hrun.append hk _)
  · intro pre hpre
    have hprefix : _ ++ k :: pre <+: (Indentation.markers 1 d d').map .marker ++ k :: ks :=
      (List.prefix_append_right_inj _).mpr (List.cons_prefix_cons.mpr ⟨rfl, hpre⟩)
    have hle := h.count hprefix
    rw [count_token hk, count_token hk] at hle
    omega
  · have hbalance := h.balance
    rw [count_token hk, count_token hk] at hbalance
    omega
  · intro before run after hf hrun hbefore hmem
    obtain ⟨hfixed, rfl⟩ : fixed = false ∧ d' = 0 := by simpa using hf
    obtain rfl := hd hfixed
    refine h.first hfixed (hrun.append hk _) ?_ hmem
    rw [Indentation.markers_self, List.map_nil, List.nil_append, List.mem_cons, not_or]
    refine ⟨?_, hbefore⟩
    rintro rfl
    cases hk

theorem Blocks.token (h : Blocks (fixed || d' != 0) d' ks) (hd : fixed = false → d = 0)
    (hone : fixed = false → d' ≤ 1) (hk : k.isMarker = false) :
    Blocks fixed d ((Indentation.markers 1 d d').map .marker ++ k :: ks) := by
  have hcount := count_markers d d'
  refine ⟨?_, ?_, ?_, ?_⟩
  · intro before run after hrun
    rcases hrun.cases (isMarker_markers d d') hk with ⟨-, rfl, rfl⟩ | ⟨before, -, hrun⟩
    · rcases kind_markers d d' with ⟨n, -, hm⟩ | ⟨n, -, hm⟩
      · exact .inl ⟨fun x hx => List.eq_of_mem_replicate (hm ▸ hx), List.cons_ne_nil _ _⟩
      · exact .inr fun x hx => List.eq_of_mem_replicate (hm ▸ hx)
    · exact h.uniform hrun
  · intro pre hpre
    rcases List.prefix_or_prefix_of_prefix hpre (List.prefix_append _ _) with hms | ⟨pre, rfl⟩
    · exact count_prefix_markers hms
    · rw [List.prefix_append_right_inj, List.prefix_cons_iff] at hpre
      rcases hpre with rfl | ⟨pre, rfl, hpre⟩
      · rw [List.append_nil]
        omega
      · have := h.count hpre
        rw [count_token hk, count_token hk]
        omega
  · have := h.balance
    rw [count_token hk, count_token hk]
    omega
  · intro before run after hf hrun hbefore hmem
    obtain rfl := hd hf
    rcases hrun.cases (isMarker_markers 0 d') hk with ⟨-, rfl, -⟩ | ⟨before, rfl, hrest⟩
    · rcases markers_unfixed (hone hf) with ⟨-, hm⟩ | ⟨-, hm⟩
      · rw [hm] at hmem
        cases hmem
      · rw [hm]
        rfl
    · rcases markers_unfixed (hone hf) with ⟨rfl, hm⟩ | ⟨-, hm⟩
      · refine h.first (by simp [hf]) hrest ?_ hmem
        intro hb
        exact hbefore (by simp [hb])
      · rw [hm] at hbefore
        simp at hbefore

/-- Kinds are nested if and only if they look so from outside. -/
theorem nesting_iff_blocks (hd : fixed = false → d = 0) :
    Nesting fixed d ks ↔ Blocks fixed d ks := by
  constructor
  · intro h
    induction h with
    | close fixed d => exact Blocks.close fixed d
    | token d hk hone _ ih => exact (ih (by simp)).token hd hone hk
  · intro h
    induction hn : ks.length using Nat.strongRecOn generalizing fixed d ks with
    | _ n ih =>
      obtain ⟨ms, rest, rfl, hms, hrest⟩ := exists_span Kind.isMarker ks
      match rest with
      | [] =>
        -- only markers are left, and they close all blocks
        rw [List.append_nil] at h ⊢
        have hdedent : ∀ k ∈ ms, k = .marker .dedent := by
          rcases Classical.em (ms = []) with rfl | hne
          · exact fun k hk => absurd hk List.not_mem_nil
          · have hrun : MarkerRun ms [] ms [] := ⟨by simp, hne, hms, by simp, by simp⟩
            rcases h.uniform hrun with ⟨-, hne⟩ | hdedent
            · exact absurd rfl hne
            · exact hdedent
        have hms := List.eq_replicate_of_mem hdedent
        have hlen : ms.length = d := by
          have hbalance := h.balance
          rw [hms] at hbalance
          simpa [List.count_replicate] using hbalance
        rw [hms, hlen]
        exact .close fixed d
      | k :: ks =>
        have hk : k.isMarker = false := hrest k rfl
        have huniform : (∀ k ∈ ms, k = .marker .indent) ∨ ∀ k ∈ ms, k = .marker .dedent := by
          rcases Classical.em (ms = []) with rfl | hne
          · exact .inl fun k hk => absurd hk List.not_mem_nil
          · exact (h.uniform (.first hms hne hk ks)).imp_left And.left
        obtain ⟨d', rfl⟩ := exists_markers huniform (h.count (List.prefix_append _ _))
        obtain ⟨hone, hblocks⟩ := h.of_token hd hk
        refine .token d hk hone (ih ks.length ?_ (by simp) hblocks rfl)
        rw [← hn, List.length_append, List.length_cons]
        omega

/-! ## Tokens that can be written -/

namespace Token

/-- Names are not empty, numbers have numerals, and symbols and markers carry nothing. -/
def Canonical (u : Token) : Prop :=
  match u.body with
  | .identifier s => s ≠ ""
  | .number x => ∃ l, IsNumeral l ∧ x.equal (.ofNumeral l)
  | .symbol _ carried | .marker _ carried => carried = .none
  | .string _ => True

theorem Canonical.exists_written {u : Token} (h : u.Canonical) : ∃ v, u.agrees v ∧ v.Written := by
  obtain ⟨body, lexeme, location⟩ := u
  cases body with
  | marker m carried =>
    obtain rfl : carried = .none := h
    refine ⟨⟨.marker m .none, lexeme, location⟩, ?_, .inl ⟨m, rfl⟩⟩
    simp [agrees, payload, Body.payload, Payload.agrees]
  | symbol s carried =>
    obtain rfl : carried = .none := h
    refine ⟨⟨.symbol s .none, s.spelling, location⟩, ?_, .inr ⟨?_, rfl⟩⟩
    · simp [agrees, kind, Body.kind, payload, Body.payload, Payload.agrees]
    · simp only [text, Symbol.spelling, String.toList_ofList]
      exact .symbol s
  | string s =>
    refine ⟨⟨.string s, lexeme, location⟩, ?_, .inr (spells_quote s)⟩
    simp [agrees, payload, Body.payload, Payload.agrees]
  | identifier s =>
    refine ⟨⟨.identifier s, lexeme, location⟩, ?_, .inr (spells_escape h)⟩
    simp [agrees, payload, Body.payload, Payload.agrees]
  | number x =>
    obtain ⟨l, hl, hx⟩ := h
    refine ⟨⟨.number (.ofNumeral l), String.ofList l, location⟩, ?_, .inr ?_⟩
    · simpa [agrees, kind, Body.kind, payload, Body.payload, Payload.agrees] using hx
    · simp only [text, String.toList_ofList]
      exact ⟨.number hl, rfl⟩

theorem Payload.eq_of_agrees {p q : Payload} (h : p.agrees q) (hq : ∀ y, q ≠ .number y) :
    p = q := by
  cases p <;> cases q <;> simp_all [Payload.agrees]

theorem Written.canonical {u v : Token} (h : v.Written) (ha : u.agrees v) : u.Canonical := by
  obtain ⟨hkind, hpayload⟩ : u.kind = v.kind ∧ u.payload.agrees v.payload := by
    simpa [agrees] using ha
  obtain ⟨body, lexeme, location⟩ := u
  obtain ⟨body', lexeme', location'⟩ := v
  cases body with
  | marker m carried =>
    cases body' with
    | marker m' carried' =>
      rcases h with ⟨m, hm⟩ | hs
      · cases hm
        exact Payload.eq_of_agrees hpayload nofun
      · cases hs.form
    | _ => cases hkind
  | symbol s carried =>
    cases body' with
    | symbol s' carried' =>
      have hs : carried' = .none := (h.spells rfl).payload
      subst hs
      exact Payload.eq_of_agrees hpayload nofun
    | _ => cases hkind
  | string s => trivial
  | identifier s =>
    cases body' with
    | identifier s' =>
      have hs : Payload.text s = .text s' := Payload.eq_of_agrees hpayload nofun
      cases hs
      exact (h.spells rfl).identifier_ne
    | _ => cases hkind
  | number x =>
    cases body' with
    | number y =>
      obtain ⟨hform, hy⟩ := h.spells rfl
      have hform : HasForm .number lexeme'.toList := hform
      have hy : Payload.number y = .number (.ofNumeral lexeme'.toList) := hy
      cases hy
      cases hform with
      | number hl => exact ⟨_, hl, hpayload⟩
    | _ => cases hkind

theorem map_kind_of_agrees {us vs : List Token} (h : List.Forall₂ (fun u v => u.agrees v) us vs) :
    us.map kind = vs.map kind := by
  induction h with
  | nil => rfl
  | @cons u v us vs hu _ ih =>
    have hkind : u.kind = v.kind := by
      simp only [agrees, Bool.and_eq_true, beq_iff_eq] at hu
      exact hu.1
    rw [List.map_cons, List.map_cons, hkind, ih]

theorem agrees_of_copies {us vs ws : List Token} (h : List.Forall₂ (fun u v => u.agrees v) us vs)
    (hc : List.Forall₂ Copies vs ws) : List.Forall₂ (fun u v => u.agrees v) us ws := by
  induction h generalizing ws with
  | nil =>
    cases hc
    exact .nil
  | @cons u v us vs hu _ ih =>
    cases hc with
    | @cons _ w _ ws hv hvs =>
      refine .cons ?_ (ih hvs)
      simp only [agrees, kind, payload, hv.body] at hu ⊢
      exact hu

end Token

/-! ## The tokens of some text -/

/-- Tokens that may come from a text. -/
structure Canonical (ts : List Token) : Prop where
  tokens : ∀ u ∈ ts, u.Canonical
  /-- A run of markers opens blocks for something that follows, or it closes blocks. -/
  uniform : ∀ before run after, MarkerRun (ts.map Token.kind) before run after →
    (∀ k ∈ run, k = .marker .indent) ∧ after ≠ [] ∨ ∀ k ∈ run, k = .marker .dedent
  /-- Nowhere have more blocks been closed than opened. -/
  count : ∀ pre, pre <+: ts.map Token.kind →
    pre.count (.marker .dedent) ≤ pre.count (.marker .indent)
  balance : (ts.map Token.kind).count (.marker .dedent) =
    (ts.map Token.kind).count (.marker .indent)
  /-- The first run that opens blocks opens one. -/
  first : ∀ before run after, MarkerRun (ts.map Token.kind) before run after →
    .marker .indent ∉ before → .marker .indent ∈ run → run.length = 1

theorem canonical_iff {ts : List Token} :
    Canonical ts ↔ (∀ u ∈ ts, u.Canonical) ∧ Nesting false 0 (ts.map Token.kind) := by
  rw [nesting_iff_blocks fun _ => rfl]
  constructor
  · intro h
    refine ⟨h.tokens, h.uniform _ _ _, ?_, ?_, fun _ => h.first _ _ _⟩
    · intro pre hpre
      rw [Nat.zero_add]
      exact h.count pre hpre
    · rw [Nat.zero_add, h.balance]
  · rintro ⟨htokens, h⟩
    refine ⟨htokens, fun _ _ _ => h.uniform, ?_, ?_, fun _ _ _ => h.first rfl⟩
    · intro pre hpre
      simpa using h.count hpre
    · simpa using h.balance

theorem exists_mem_of_forall₂ {us vs : List Token} {R : Token → Token → Prop}
    (h : List.Forall₂ R us vs) {u : Token} (hu : u ∈ us) : ∃ v ∈ vs, R u v := by
  induction h with
  | nil => cases hu
  | cons hr _ ih =>
    rcases List.mem_cons.mp hu with rfl | hu
    · exact ⟨_, List.mem_cons_self, hr⟩
    · obtain ⟨v, hv, hr⟩ := ih hu
      exact ⟨v, List.mem_cons_of_mem _ hv, hr⟩

theorem exists_forall₂_written {ts : List Token} (h : ∀ u ∈ ts, u.Canonical) :
    ∃ vs, List.Forall₂ (fun u v => u.agrees v) ts vs ∧ ∀ v ∈ vs, v.Written := by
  induction ts with
  | nil => exact ⟨[], .nil, fun v hv => absurd hv List.not_mem_nil⟩
  | cons u ts ih =>
    obtain ⟨hu, hts⟩ := List.forall_mem_cons.mp h
    obtain ⟨v, hagrees, hv⟩ := hu.exists_written
    obtain ⟨vs, hall, hvs⟩ := ih hts
    exact ⟨v :: vs, .cons hagrees hall, List.forall_mem_cons.mpr ⟨hv, hvs⟩⟩

/-- Tokens can be written so that they are scanned again, whatever the last of them ends with, since
a comment may follow it. -/
theorem exists_tokenize_copies {vs : List Token} (hw : ∀ v ∈ vs, v.Written)
    (h : Nesting false 0 (vs.map Token.kind)) (file : String) :
    ∃ source tokens, tokenize file source = .ok tokens ∧ List.Forall₂ Token.Copies vs tokens := by
  have happroach : vs = [] ∨ Nonempty (Approach .default false 0 .none vs) :=
    h.approach_start (by decide) hw
  rcases happroach with rfl | ⟨⟨a⟩⟩
  · exact ⟨"", [], tokenize_empty file, .nil⟩
  · obtain ⟨tokens, hscan, hcopies⟩ := a.scan_whole hw (.inr rfl) file .start
    refine ⟨String.ofList (a.lead ++ (a.last.text.toList ++ ['#'])), tokens, ?_, hcopies⟩
    have htrim : trimmed (String.ofList (a.lead ++ (a.last.text.toList ++ ['#']))) =
        a.lead ++ (a.last.text.toList ++ ['#']) := by
      rw [trimmed, String.toList_ofList, ← List.append_assoc, Text.trimEnd_concat_solid (by decide)]
    rw [tokenize_eq_before .default, htrim, hscan]

/-- A list of tokens is that of some text, up to how words are written and where, if and only if it
is canonical. -/
theorem exists_tokenize_iff_canonical (file : String) (ts : List Token) :
    (∃ source tokens, tokenize file source = .ok tokens ∧
      List.Forall₂ (fun u v => u.agrees v) ts tokens) ↔ Canonical ts := by
  rw [canonical_iff]
  constructor
  · rintro ⟨source, tokens, h, hagrees⟩
    constructor
    · intro u hu
      obtain ⟨v, hv, hagrees⟩ := exists_mem_of_forall₂ hagrees hu
      exact (written_of_tokenize h v hv).canonical hagrees
    · rw [Token.map_kind_of_agrees hagrees]
      exact nesting_of_tokenize h
  · rintro ⟨htokens, hnesting⟩
    obtain ⟨vs, hagrees, hw⟩ := exists_forall₂_written htokens
    rw [Token.map_kind_of_agrees hagrees] at hnesting
    obtain ⟨source, tokens, h, hcopies⟩ := exists_tokenize_copies hw hnesting file
    exact ⟨source, tokens, h, Token.agrees_of_copies hagrees hcopies⟩

end TraitMarkup
