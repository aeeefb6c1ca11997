import Mathlib.Data.List.Forall2
import TraitMarkup.Configuration
import TraitMarkup.Proofs.Nesting
import TraitMarkup.Proofs.Writing
import TraitMarkup.Rendering

/-!
# Rendering and scanning

Nested tokens that are rendered are scanned again. A rendered text is a lead-in and a text for each
token, the lead-in being a space, or a line break with the indent of the token's depth
(`renderFrom_markers`). A scan takes the lead-in and comes to the same markers
(`IndentUnit.reaches_leadIn`), and so, by induction on the nesting, it comes to the last of the
tokens that are no markers (`Nesting.approach`). From there on only the end of the text matters: a
name whose last character is blank loses it there, since trailing blanks do not count.
-/

namespace TraitMarkup

open Token (Kind Body Payload)

variable {file : String} {p : Position} {fixed : Bool} {d d' : Nat} {gap : Gap}

/-! ## The rendered text -/

section

variable {u : Token} {us : List Token} {unit : String}

theorem renderFrom_indent (h : u.kind = .marker .indent) :
    renderFrom unit d gap (u :: us) = renderFrom unit (d + 1) .lineBreak us := by
  obtain ⟨body, lexeme, location⟩ := u
  cases body <;> cases h
  rfl

theorem renderFrom_dedent (h : u.kind = .marker .dedent) :
    renderFrom unit d gap (u :: us) = renderFrom unit (d - 1) .lineBreak us := by
  obtain ⟨body, lexeme, location⟩ := u
  cases body <;> cases h
  rfl

theorem renderFrom_token (h : u.isMarker = false) :
    renderFrom unit d gap (u :: us) =
      gap.text unit d ++ u.text ++ renderFrom unit d .space us := by
  obtain ⟨body, lexeme, location⟩ := u
  cases body with
  | marker => cases h
  | _ => rfl

/-- Markers that lead to another depth render as a line break with its indent. -/
theorem renderFrom_markers {ms : List Token}
    (hm : ms.map Token.kind = (Indentation.markers 1 d d').map .marker) (hu : u.isMarker = false) :
    renderFrom unit d gap (ms ++ u :: us) =
      (if d = d' then gap else .lineBreak).text unit d' ++ u.text ++
        renderFrom unit d' .space us := by
  induction ms generalizing d gap with
  | nil =>
    rcases Nat.lt_trichotomy d d' with hd | rfl | hd
    · rw [Indentation.markers_lt hd] at hm
      cases hm
    · rw [List.nil_append, renderFrom_token hu, if_pos rfl]
    · rw [Indentation.markers_gt hd] at hm
      cases hm
  | cons m ms ih =>
    rcases Nat.lt_trichotomy d d' with hd | rfl | hd
    · rw [Indentation.markers_lt hd] at hm
      obtain ⟨hm, hms⟩ := List.cons.inj hm
      rw [List.cons_append, renderFrom_indent hm, ih hms, ite_self, if_neg (Nat.ne_of_lt hd)]
    · rw [Indentation.markers_self] at hm
      cases hm
    · rw [Indentation.markers_gt hd] at hm
      obtain ⟨hm, hms⟩ := List.cons.inj hm
      rw [List.cons_append, renderFrom_dedent hm, ih hms, ite_self, if_neg (Nat.ne_of_gt hd)]

theorem renderFrom_dedents {ms : List Token}
    (hm : ms.map Token.kind = List.replicate d (.marker .dedent)) :
    renderFrom unit d gap ms = "" := by
  induction ms generalizing d gap with
  | nil => rfl
  | cons m ms ih =>
    match d with
    | 0 => cases hm
    | d + 1 =>
      obtain ⟨hm, hms⟩ := List.cons.inj hm
      rw [renderFrom_dedent hm]
      exact ih hms

end

/-! ## The state of the indentation -/

namespace IndentUnit

variable (unit : IndentUnit)

/-- The state in which lines indented by the unit leave the indentation. -/
def state (fixed : Bool) (depth : Nat) : Indentation :=
  ⟨depth * unit.width, if fixed then some unit.blank else none,
    if fixed then some unit.width else none⟩

theorem state_fresh : unit.state false 0 = .fresh := by
  simp [state, Indentation.fresh]

theorem markers_width (d d' : Nat) : Indentation.markers unit.width (d * unit.width)
    (d' * unit.width) = Indentation.markers 1 d d' := by
  rw [Indentation.markers_div unit.width_pos (Nat.dvd_mul_left _ _) (Nat.dvd_mul_left _ _),
    Nat.mul_div_cancel _ unit.width_pos, Nat.mul_div_cancel _ unit.width_pos]

theorem close_state (h : fixed = false → d = 0) :
    (unit.state fixed d).close.1 = List.replicate d .dedent := by
  rw [← Indentation.markers_close]
  cases fixed with
  | true =>
    have := unit.markers_width d 0
    rwa [Nat.zero_mul] at this
  | false =>
    obtain rfl := h rfl
    simp [state, Indentation.close]

/-- The indent of a depth leads to it. -/
theorem measure_state (h : fixed = false → d = 0 ∧ d' ≤ 1) :
    (unit.state fixed d).measure (List.replicate (d' * unit.width) unit.blank) =
      (.ok (Indentation.markers 1 d d'), unit.state (fixed || d' != 0) d') := by
  match d' with
  | 0 =>
    rw [Nat.zero_mul, List.replicate_zero, Indentation.measure_nil]
    have := unit.close_state fun hf => (h hf).1
    rw [← Indentation.markers_close] at this
    simp only [Indentation.close] at this
    rw [this]
    simp [state]
  | n + 1 =>
    have hpos : 0 < (n + 1) * unit.width := Nat.mul_pos (Nat.succ_pos n) unit.width_pos
    have hne : List.replicate ((n + 1) * unit.width) unit.blank ≠ [] := by
      simpa using Nat.ne_of_gt hpos
    have hmarkers := unit.markers_width d (n + 1)
    cases fixed with
    | true =>
      have hdvd : unit.width ∣ (n + 1) * unit.width := Nat.dvd_mul_left _ _
      rw [Indentation.measure_run hne (fun c hc => List.eq_of_mem_replicate hc) rfl
        (by rw [List.length_replicate]; exact hdvd)]
      simp [state, hmarkers]
    | false =>
      -- the first indent fixes the step
      obtain ⟨rfl, hn⟩ := h rfl
      obtain rfl : n = 0 := by omega
      rw [Indentation.measure_run hne (fun c hc => List.eq_of_mem_replicate hc) rfl
        (by simp [state])]
      simpa [state] using hmarkers

theorem toList_indent (d : Nat) : (String.join (List.replicate d unit.text)).toList =
    List.replicate (d * unit.width) unit.blank := by
  induction d with
  | zero => simp
  | succ d ih =>
    rw [String.toList_join] at ih ⊢
    rw [List.replicate_succ, List.flatMap_cons, ih, text, String.toList_ofList,
      List.replicate_append_replicate, Nat.succ_mul, Nat.add_comm]

end IndentUnit

/-! ## Scanning up to a token -/

namespace Scan

/-- A scan of some text, before a lexeme, comes to the given tokens and goes on inside a line. -/
def Reaches (scan : List Char → Scan) (lead : List Char) (file : String) (p : Position)
    (t : Indentation) (tokens : List Token) : Prop :=
  ∀ c cs, Text.isBlank c = false → c ≠ '#' →
    scan (lead ++ c :: cs) = (inside file p t (c :: cs)).prepend tokens

variable {scan : List Char → Scan} {lead l rest : List Char} {t t' : Indentation}
  {tokens tokens' : List Token} {p' : Position} {body : Body}

theorem Reaches.lexeme (h : Reaches scan lead file p t tokens) (hs : Spells body l)
    (hr : Ends body.kind l rest) : scan (lead ++ (l ++ rest)) =
      (inside file (p.after l) t rest).prepend
        (tokens ++ [⟨body, String.ofList l, p.inFile file⟩]) := by
  obtain ⟨c, cs, hl, hc, hh⟩ := hs.form.exists_cons
  have hsolid : l ++ rest = c :: (cs ++ rest) := by
    rw [hl]
    rfl
  rw [hsolid, h c _ hc hh, ← hsolid, inside_lexeme hs hr, prepend_prepend]

end Scan

theorem ends_of_separator {k : Kind} {l rest : List Char}
    (h : ∀ c ∈ rest.head?, Text.isBlank c ∨ c = '#') : Ends k l rest := by
  have hsep : ∀ c ∈ rest.head?, Word.isContinue c = false ∧ Text.isDecimal c = false ∧
      c ≠ '\\' ∧ c ≠ '.' ∧ c ≠ '=' := by
    intro c hc
    rcases h c hc with hb | rfl
    · refine ⟨Word.not_isContinue_of_isBlank hb, ?_, ne_of_class hb (by decide),
        ne_of_class hb (by decide), ne_of_class hb (by decide)⟩
      exact not_class_of_class Text.not_isBlank_of_isDecimal hb
    · decide
  cases k with
  | marker | string => trivial
  | identifier => exact fun c hc => ⟨(hsep c hc).1, (hsep c hc).2.2.1⟩
  | number =>
    intro c hc
    obtain ⟨-, hdec, hb, hp, -⟩ := hsep c hc
    exact ⟨hdec, hb, fun he => absurd he hp⟩
  | symbol s => exact fun c hc _ => (hsep c hc).2.2.2.2

/-- A lexeme and a blank after it lead on to what is reached from there. -/
theorem Scan.Reaches.token {scan : List Char → Scan} {lead lead' l : List Char} {t t' : Indentation}
    {tokens tokens' : List Token} {p' : Position} {body : Body}
    (h : Reaches scan lead file p t tokens) (hs : Spells body l)
    (hlead' : ∃ c cs, lead' = c :: cs ∧ Text.isBlank c)
    (h' : Reaches (inside file (p.after l) t) lead' file p' t' tokens') :
    Reaches scan (lead ++ (l ++ lead')) file p' t'
      (tokens ++ ⟨body, String.ofList l, p.inFile file⟩ :: tokens') := by
  intro c cs hc hh
  obtain ⟨b, bs, rfl, hb⟩ := hlead'
  have hends : Ends body.kind l (b :: bs ++ c :: cs) := by
    apply ends_of_separator
    rintro x ⟨⟩
    exact .inl hb
  rw [List.append_assoc, List.append_assoc, h.lexeme hs hends, h' c cs hc hh, prepend_prepend,
    List.append_assoc, List.singleton_append]

/-- A scan that starts where a gap is next: without one, the text and so a line starts. -/
def Scan.before (file : String) (p : Position) (t : Indentation) : Gap → List Char → Scan
  | .none, cs => start file p t cs
  | _, cs => inside file p t cs

namespace IndentUnit

/-- What is rendered between the gap after a token at depth `d` and a token at depth `d'`. -/
def leadIn (unit : IndentUnit) (d d' : Nat) (gap : Gap) : List Char :=
  ((if d = d' then gap else .lineBreak).text unit.text d').toList

variable {unit : IndentUnit}

theorem exists_blank_leadIn (unit : IndentUnit) (d d' : Nat) :
    ∃ c cs, unit.leadIn d d' .space = c :: cs ∧ Text.isBlank c := by
  unfold leadIn
  split
  · exact ⟨' ', [], by simp [Gap.text], by decide⟩
  · exact ⟨'\n', (String.join (List.replicate d' unit.text)).toList, by simp [Gap.text], by decide⟩

theorem toList_renderFrom {ms us : List Token} {u : Token}
    (hm : ms.map Token.kind = (Indentation.markers 1 d d').map .marker) (hu : u.isMarker = false) :
    (renderFrom unit.text d gap (ms ++ u :: us)).toList =
      unit.leadIn d d' gap ++
        (u.text.toList ++ (renderFrom unit.text d' .space us).toList) := by
  rw [renderFrom_markers hm hu, String.toList_append, String.toList_append, List.append_assoc,
    leadIn]

theorem reaches_lineBreak (hn : unit.blank ≠ '\n') (hd : fixed = false → d = 0 ∧ d' ≤ 1)
    (hgap : gap ≠ .lineBreak) (file : String) (p : Position) :
    Scan.Reaches (Scan.before file p (unit.state fixed d) gap)
      (Gap.lineBreak.text unit.text d').toList file
      ((p.next '\n').after (List.replicate (d' * unit.width) unit.blank))
      (unit.state (fixed || d' != 0) d')
      ((Indentation.markers 1 d d').map (.ofMarker ((p.next '\n').inFile file))) := by
  intro c cs hc hh
  have htext : (Gap.lineBreak.text unit.text d').toList ++ c :: cs =
      '\n' :: (List.replicate (d' * unit.width) unit.blank ++ c :: cs) := by
    rw [Gap.text, String.toList_append, toList_indent]
    rfl
  have hws : ∀ w ∈ List.replicate (d' * unit.width) unit.blank, Text.isBlank w ∧ w ≠ '\n' := by
    intro w hw
    rw [List.eq_of_mem_replicate hw]
    exact ⟨unit.isBlank, hn⟩
  have hstart : Scan.before file p (unit.state fixed d) gap
      ('\n' :: (List.replicate (d' * unit.width) unit.blank ++ c :: cs)) =
      Scan.start file (p.next '\n') (unit.state fixed d)
        (List.replicate (d' * unit.width) unit.blank ++ c :: cs) := by
    cases gap with
    | none => exact Scan.start_newline _
    | space => exact Scan.inside_newline _
    | lineBreak => exact absurd rfl hgap
  rw [htext, hstart, Scan.start_line hws hc hh, measure_state unit hd]

/-- A scan takes what is rendered before a token and comes to the markers that lead to its depth. -/
theorem reaches_leadIn (hn : unit.blank ≠ '\n') (hd : fixed = false → d = 0 ∧ d' ≤ 1)
    (hgap : gap ≠ .lineBreak) (hnone : gap = .none → d = 0) (file : String) (p : Position) :
    ∃ p' location, Scan.Reaches (Scan.before file p (unit.state fixed d) gap)
      (unit.leadIn d d' gap) file p' (unit.state (fixed || d' != 0) d')
      ((Indentation.markers 1 d d').map (.ofMarker location)) := by
  unfold leadIn
  by_cases h : d = d'
  · subst h
    have hfixed : (fixed || d != 0) = fixed := by
      cases fixed with
      | true => rfl
      | false => simp [(hd rfl).1]
    rw [if_pos rfl, Indentation.markers_self, hfixed]
    cases gap with
    | none =>
      obtain rfl := hnone rfl
      refine ⟨p, p.inFile file, fun c cs hc hh => ?_⟩
      have hline : Scan.start file p (unit.state fixed 0) ([] ++ c :: cs) = _ :=
        Scan.start_line (by simp) hc hh cs
      have hm := measure_state unit hd
      rw [Nat.zero_mul, List.replicate_zero] at hm
      rw [hm] at hline
      simpa [Scan.before, Gap.text, hfixed, Indentation.markers_self] using hline
    | space =>
      refine ⟨p.next ' ', p.inFile file, fun c cs _ _ => ?_⟩
      have hspace : (Gap.space.text unit.text d).toList = [' '] := by simp [Gap.text]
      rw [hspace]
      exact Scan.inside_blank (by decide) (by decide) (c :: cs)
    | lineBreak => exact absurd rfl hgap
  · rw [if_neg h]
    exact ⟨_, _, reaches_lineBreak hn hd hgap file p⟩

end IndentUnit

/-! ## Scanning the rendered text -/

namespace Token

/-- A token that may come from a text and is written back as a lexeme of its own. -/
def Written (u : Token) : Prop :=
  (∃ m, u.body = .marker m .none) ∨ Spells u.body u.text.toList

/-- Two tokens, the second of which is written like the first is written back. -/
structure Copies (u v : Token) : Prop where
  body : u.body = v.body
  lexeme : u.text = v.lexeme

theorem Written.spells {u : Token} (h : u.Written) (hu : u.isMarker = false) :
    Spells u.body u.text.toList := by
  rcases h with ⟨m, hm⟩ | h
  · rw [Token.isMarker, hm] at hu
    cases hu
  · exact h

theorem copies_text (u : Token) (location : Location) :
    Copies u ⟨u.body, String.ofList u.text.toList, location⟩ :=
  ⟨rfl, String.ofList_toList.symm⟩

theorem copies_ofMarker {ms : List Marker} {us : List Token}
    (h : us.map Token.kind = ms.map .marker) (hw : ∀ u ∈ us, u.Written) (location : Location) :
    List.Forall₂ Copies us (ms.map (.ofMarker location)) := by
  induction ms generalizing us with
  | nil =>
    obtain rfl : us = [] := List.map_eq_nil_iff.mp h
    exact .nil
  | cons m ms ih =>
    obtain ⟨u, us, rfl, hu, hus⟩ := List.map_eq_cons_iff.mp h
    obtain ⟨hwu, hw⟩ := List.forall_mem_cons.mp hw
    refine .cons ?_ (ih hus hw)
    rcases hwu with ⟨m', hm⟩ | hs
    · rw [Token.kind, hm] at hu
      cases hu
      exact ⟨hm, by simp [Token.text, hm, ofMarker]⟩
    · have := hs.form
      rw [← Token.kind, hu] at this
      cases this

end Token

/-- Rendered tokens split at the last one that is no marker. A scan of what stands before it comes
to the tokens before it, and only open blocks are closed after it. -/
structure Approach (unit : IndentUnit) (fixed : Bool) (d : Nat) (gap : Gap) (ts : List Token) where
  before : List Token
  last : Token
  closing : List Token
  lead : List Char
  fixed' : Bool
  depth' : Nat
  split : ts = before ++ last :: closing
  isMarker_last : last.isMarker = false
  kind_closing : closing.map Token.kind = List.replicate depth' (.marker .dedent)
  unfixed : fixed' = false → depth' = 0
  text : (renderFrom unit.text d gap ts).toList = lead ++ last.text.toList
  blank_lead : gap = .space → ∃ c cs, lead = c :: cs ∧ Text.isBlank c
  scan (file : String) (p : Position) : ∃ p' tokens, List.Forall₂ Token.Copies before tokens ∧
    Scan.Reaches (Scan.before file p (unit.state fixed d) gap) lead file p'
      (unit.state fixed' depth') tokens

theorem Nesting.approach {unit : IndentUnit} (hn : unit.blank ≠ '\n') {ks : List Kind}
    (h : Nesting fixed d ks) {ts : List Token} (hts : ts.map Token.kind = ks)
    (hw : ∀ u ∈ ts, u.Written) (hd : fixed = false → d = 0) (hgap : gap ≠ .lineBreak)
    (hnone : gap = .none → d = 0) :
    ts.map Token.kind = List.replicate d (.marker .dedent) ∨
      Nonempty (Approach unit fixed d gap ts) := by
  induction h generalizing ts gap with
  | close fixed depth => exact .inl hts
  | @token fixed d d' k ks hk hone _ ih =>
    obtain ⟨ms, rest, rfl, hms, hrest⟩ := List.map_eq_append_iff.mp hts
    obtain ⟨u, us, rfl, hu, hus⟩ := List.map_eq_cons_iff.mp hrest
    have hmarker : u.isMarker = false := by rw [Token.isMarker_eq, hu, hk]
    have hwms : ∀ v ∈ ms, v.Written := fun v hv => hw v (by simp [hv])
    have hspells : Spells u.body u.text.toList := (hw u (by simp)).spells hmarker
    have hwus : ∀ v ∈ us, v.Written := fun v hv => hw v (by simp [hv])
    have hfixed : (fixed || d' != 0) = false → d' = 0 := by simp
    have htext : (renderFrom unit.text d gap (ms ++ u :: us)).toList = _ :=
      IndentUnit.toList_renderFrom hms hmarker
    have hleadIn := IndentUnit.reaches_leadIn hn (fun hf => ⟨hd hf, hone hf⟩) hgap hnone
    have hblank := unit.exists_blank_leadIn d d'
    right
    -- the last token is `u`, or it is one of those that follow
    rcases @ih .space us hus hwus hfixed (by decide) nofun with hclose | ⟨⟨a⟩⟩
    · refine ⟨ms, u, us, unit.leadIn d d' gap, _, d', rfl, hmarker, hclose, hfixed, ?_, ?_, ?_⟩
      · rw [htext, renderFrom_dedents hclose]
        simp
      · rintro rfl
        exact hblank
      · intro file p
        obtain ⟨p', location, hscan⟩ := hleadIn file p
        exact ⟨p', _, Token.copies_ofMarker hms hwms location, hscan⟩
    · refine ⟨ms ++ u :: a.before, a.last, a.closing,
        unit.leadIn d d' gap ++ (u.text.toList ++ a.lead), a.fixed', a.depth', ?_, a.isMarker_last,
        a.kind_closing, a.unfixed, ?_, ?_, ?_⟩
      · rw [List.append_assoc, List.cons_append, ← a.split]
      · rw [htext, a.text]
        simp only [List.append_assoc]
      · rintro rfl
        obtain ⟨c, cs, hcs, hc⟩ := hblank
        exact ⟨c, _, by rw [hcs]; rfl, hc⟩
      · intro file p
        obtain ⟨p₁, location, hscan⟩ := hleadIn file p
        obtain ⟨p₂, tokens, hcopies, hrest⟩ := a.scan file (p₁.after u.text.toList)
        exact ⟨p₂, _, List.rel_append (Token.copies_ofMarker hms hwms location)
          (.cons (u.copies_text _) hcopies), hscan.token hspells (a.blank_lead rfl) hrest⟩

theorem Nesting.approach_start {unit : IndentUnit} (hn : unit.blank ≠ '\n') {ts : List Token}
    (h : Nesting false 0 (ts.map Token.kind)) (hw : ∀ u ∈ ts, u.Written) :
    ts = [] ∨ Nonempty (Approach unit false 0 .none ts) := by
  have ha : _ ∨ Nonempty (Approach unit false 0 .none ts) :=
    h.approach hn rfl hw (fun _ => rfl) (by decide) (fun _ => rfl)
  rcases ha with hnil | ha
  · exact .inl (List.map_eq_nil_iff.mp hnil)
  · exact .inr ha

/-! ## The end of the text -/

theorem Text.trimEnd_concat_solid {c : Char} (h : isBlank c = false) (cs : List Char) :
    trimEnd (cs ++ [c]) = cs ++ [c] := by
  simp [trimEnd, h]

theorem Text.trimEnd_concat_blank {c : Char} (h : isBlank c) (cs : List Char) :
    trimEnd (cs ++ [c]) = trimEnd cs := by
  simp [trimEnd, h]

theorem Text.trimEnd_append {ws : List Char} (h : ∀ c ∈ ws, isBlank c) (cs : List Char) :
    trimEnd (cs ++ ws) = trimEnd cs := by
  induction ws generalizing cs with
  | nil => rw [List.append_nil]
  | cons c ws ih =>
    obtain ⟨hc, hws⟩ := List.forall_mem_cons.mp h
    rw [List.append_cons, ih hws, trimEnd_concat_blank hc]

theorem Text.exists_trimEnd_append (cs : List Char) :
    ∃ ws, cs = trimEnd cs ++ ws ∧ ∀ c ∈ ws, isBlank c := by
  refine ⟨(cs.reverse.takeWhile isBlank).reverse, ?_, ?_⟩
  · rw [trimEnd, ← List.reverse_append, List.takeWhile_append_dropWhile, List.reverse_reverse]
  · intro c hc
    exact List.all_eq_true.mp List.all_takeWhile c (List.mem_reverse.mp hc)

theorem Scan.inside_end (file : String) (p : Position) (t : Indentation) {tail : List Char}
    (h : tail = [] ∨ tail = ['#']) : ∃ p', inside file p t tail = ofLines file p' t [] := by
  rcases h with rfl | rfl
  · exact ⟨p, inside_nil⟩
  · have hcomment : inside file p t ('#' :: [] ++ []) = _ := inside_comment (by simp) (by simp)
    exact ⟨_, hcomment.trans inside_nil⟩

theorem tokenize_eq_before (unit : IndentUnit) (file source : String) : tokenize file source =
    (Scan.before file .start (unit.state false 0) .none (trimmed source)).result := by
  rw [unit.state_fresh]
  rfl

namespace Approach

variable {unit : IndentUnit} {ts : List Token} {tail : List Char}

/-- Where the last lexeme is whole, the scan comes to all of the tokens. -/
theorem scan_whole (a : Approach unit fixed d gap ts) (hw : ∀ u ∈ ts, u.Written)
    (htail : tail = [] ∨ tail = ['#']) (file : String) (p : Position) :
    ∃ tokens, (Scan.before file p (unit.state fixed d) gap
        (a.lead ++ (a.last.text.toList ++ tail))).result = .ok tokens ∧
      List.Forall₂ Token.Copies ts tokens := by
  obtain ⟨p₁, tokens, hcopies, hscan⟩ := a.scan file p
  have hwritten : ∀ u ∈ a.before ++ a.last :: a.closing, u.Written := by
    intro u hu
    apply hw
    rwa [a.split]
  have hspells := (hwritten a.last (by simp)).spells a.isMarker_last
  have hends : Ends a.last.body.kind a.last.text.toList tail := by
    apply ends_of_separator
    rcases htail with rfl | rfl <;> simp
  obtain ⟨p₂, hend⟩ := Scan.inside_end file (p₁.after a.last.text.toList)
    (unit.state a.fixed' a.depth') htail
  have hdedents : List.Forall₂ Token.Copies a.closing
      ((List.replicate a.depth' .dedent).map (.ofMarker (p₂.inFile file))) := by
    apply Token.copies_ofMarker
    · rw [a.kind_closing, List.map_replicate]
    · exact fun u hu => hwritten u (by simp [hu])
  have hall : List.Forall₂ Token.Copies (a.before ++ a.last :: a.closing) (tokens ++ _) :=
    List.rel_append hcopies (.cons (a.last.copies_text (p₁.inFile file)) hdedents)
  rw [← a.split] at hall
  refine ⟨_, ?_, hall⟩
  rw [hscan.lexeme hspells hends, hend, Scan.result_eq_ok, Scan.ofLines,
    unit.close_state a.unfixed]
  simp

/-- Where the last lexeme is a name cut off after a backslash, the scan is refused. -/
theorem scan_cutName (a : Approach unit fixed d gap ts) (cs : List Char) (file : String)
    (p : Position) : ∃ location,
      (Scan.before file p (unit.state fixed d) gap
        (a.lead ++ (Word.escapeChars cs ++ ['\\']))).result =
          .error ⟨.danglingEscape, location⟩ := by
  obtain ⟨p₁, tokens, -, hscan⟩ := a.scan file p
  obtain ⟨c, rest, heq, hblank, hhash, hread⟩ := read_cutName cs
  refine ⟨(p₁.after (Word.escapeChars cs)).inFile file, ?_⟩
  rw [heq, hscan _ _ hblank hhash, Scan.result_eq_error, Scan.error_prepend, Scan.inside,
    pieces_cons, hread]
  rfl

theorem getLast?_filter (a : Approach unit fixed d gap ts) :
    (ts.filter (!·.isMarker)).getLast? = some a.last := by
  have hclosing : a.closing.filter (!·.isMarker) = [] := by
    rw [List.filter_eq_nil_iff]
    intro u hu
    have hk : u.kind ∈ a.closing.map Token.kind := List.mem_map_of_mem hu
    rw [a.kind_closing] at hk
    rw [Token.isMarker_eq, List.eq_of_mem_replicate hk]
    decide
  conv_lhs => rw [a.split]
  rw [List.filter_append, List.filter_cons, a.isMarker_last, hclosing]
  simp

theorem tokenize_render (a : Approach unit false 0 .none ts) (hw : ∀ u ∈ ts, u.Written)
    (hb : ¬a.last.EndsBlank) (file : String) :
    ∃ again, tokenize file (render unit.text ts) = .ok again ∧
      List.Forall₂ Token.Copies ts again := by
  obtain ⟨again, hscan, hcopies⟩ := a.scan_whole hw (.inl rfl) file .start
  refine ⟨again, ?_, hcopies⟩
  have hspells : Spells a.last.body a.last.text.toList := by
    refine Token.Written.spells (hw _ ?_) a.isMarker_last
    have hlast := List.mem_of_getLast? a.getLast?_filter
    exact List.mem_of_mem_filter hlast
  obtain ⟨cs, c, hcs, hc⟩ := Token.exists_concat hspells hb
  have htrim : trimmed (render unit.text ts) = a.lead ++ (a.last.text.toList ++ []) := by
    rw [trimmed, render, a.text, hcs, List.append_nil, ← List.append_assoc,
      Text.trimEnd_concat_solid hc]
  rw [tokenize_eq_before unit, htrim, hscan]

theorem tokenize_render_endsBlank (a : Approach unit false 0 .none ts) (hb : a.last.EndsBlank)
    (file : String) :
    ∃ location, tokenize file (render unit.text ts) = .error ⟨.danglingEscape, location⟩ := by
  obtain ⟨cs, c, hcs, hc⟩ := hb.exists_text
  obtain ⟨location, hscan⟩ := a.scan_cutName cs file .start
  have htrim : trimmed (render unit.text ts) = a.lead ++ (Word.escapeChars cs ++ ['\\']) := by
    rw [trimmed, render, a.text, hcs, ← List.append_assoc, Text.trimEnd_concat_blank hc,
      ← List.append_assoc, Text.trimEnd_concat_solid (by decide), List.append_assoc]
  exact ⟨location, by rw [tokenize_eq_before unit, htrim, hscan]⟩

end Approach

/-! ## Round trips -/

/-- Two tokens that are the same but for their places, and but for how a word is written that is no
number. -/
structure Token.Same (u v : Token) : Prop where
  body : u.body = v.body
  lexeme : u.kind = .number → u.lexeme = v.lexeme

theorem Token.Copies.same {u v : Token} (h : u.Copies v) : u.Same v := by
  refine ⟨h.body, fun hk => ?_⟩
  rw [← h.lexeme]
  obtain ⟨body, lexeme, location⟩ := u
  cases body with
  | number => rfl
  | _ => cases hk

theorem tokenize_empty (file : String) : tokenize file "" = .ok [] := by
  have hscan : scan file "" = Scan.start file .start .fresh [] := by
    simp [scan, Scan.ofChars, Scan.start, trimmed, Text.trimEnd]
  rw [tokenize, hscan, Scan.start_nil]
  rfl

theorem written_of_tokenize {source : String} {tokens : List Token}
    (h : tokenize file source = .ok tokens) : ∀ u ∈ tokens, u.Written := by
  intro u hu
  rcases marker_or_spells_of_tokenize h hu with ⟨m, hm, -⟩ | hs
  · exact .inl ⟨m, hm⟩
  · exact .inr (Token.spells_text hs)

/-- The last token that is no marker is a name with a blank at its end. -/
def LastEndsBlank (tokens : List Token) : Prop :=
  ∃ u, (tokens.filter (!·.isMarker)).getLast? = some u ∧ u.EndsBlank

/-- The tokens of a text that are rendered are scanned again, unless the last word ends with a
blank. In that case there is nothing after the last backslash. -/
theorem tokenize_render_iff {source : String} {tokens : List Token} {unit : IndentUnit}
    (hn : unit.blank ≠ '\n') (h : tokenize file source = .ok tokens) (file' : String) :
    ((∃ again, tokenize file' (render unit.text tokens) = .ok again ∧
        List.Forall₂ Token.Same tokens again) ↔ ¬LastEndsBlank tokens) ∧
      (LastEndsBlank tokens → ∃ location,
        tokenize file' (render unit.text tokens) = .error ⟨.danglingEscape, location⟩) := by
  have hw := written_of_tokenize h
  rcases (nesting_of_tokenize h).approach_start hn hw with rfl | ⟨⟨a⟩⟩
  · have hlast : ¬LastEndsBlank [] := by
      rintro ⟨u, hu, -⟩
      cases hu
    exact ⟨⟨fun _ => hlast, fun _ => ⟨[], tokenize_empty file', .nil⟩⟩, fun hb => absurd hb hlast⟩
  · have hlast : LastEndsBlank tokens ↔ a.last.EndsBlank := by
      simp [LastEndsBlank, a.getLast?_filter]
    rw [hlast]
    refine ⟨⟨?_, ?_⟩, fun hb => a.tokenize_render_endsBlank hb file'⟩
    · rintro ⟨again, hagain, -⟩ hb
      obtain ⟨location, herror⟩ := a.tokenize_render_endsBlank hb file'
      rw [hagain] at herror
      cases herror
    · intro hb
      obtain ⟨again, hagain, hcopies⟩ := a.tokenize_render hw hb file'
      exact ⟨again, hagain, hcopies.imp fun _ _ => Token.Copies.same⟩

theorem tokenize_render_iff_tab_to_spaces : IndentUnit.default.blank ≠ '\n' ∧
    (∃ tokens again, tokenize "a" "x=07.5\n\t'='#" = .ok tokens ∧
      tokenize "b" (render IndentUnit.default.text tokens) = .ok again ∧
      List.Forall₂ Token.Same tokens again) ∧
    ∃ tokens location, tokenize "a" "\ty\\ #" = .ok tokens ∧
      tokenize "b" (render IndentUnit.default.text tokens) =
        .error ⟨.danglingEscape, location⟩ := by
  have hn : IndentUnit.default.blank ≠ '\n' := by decide
  refine ⟨hn, ?_, ?_⟩
  · have h : tokenize "a" "x=07.5\n\t'='#" = .ok
        [⟨.identifier "x", "x", ⟨"a", 1, 1, 0⟩⟩, ⟨.symbol .equals .none, "=", ⟨"a", 1, 2, 1⟩⟩,
         ⟨.number (.ofNumeral ['0', '7', '.', '5']), "07.5", ⟨"a", 1, 3, 2⟩⟩,
         ⟨.marker .indent .none, "", ⟨"a", 2, 1, 7⟩⟩, ⟨.string "=", "'='", ⟨"a", 2, 2, 8⟩⟩,
         ⟨.marker .dedent .none, "", ⟨"a", 2, 6, 12⟩⟩] :=
      eq_ok_of_toOption (by decide +kernel)
    obtain ⟨again, hagain⟩ := (tokenize_render_iff hn h "b").1.mpr <| by
      rintro ⟨u, hu, s, c, hs, -⟩
      cases hu
      cases hs
    exact ⟨_, again, h, hagain⟩
  · have h : tokenize "a" "\ty\\ #" = .ok
        [⟨.marker .indent .none, "", ⟨"a", 1, 1, 0⟩⟩, ⟨.identifier "y ", "y\\ ", ⟨"a", 1, 2, 1⟩⟩,
         ⟨.marker .dedent .none, "", ⟨"a", 1, 6, 5⟩⟩] :=
      eq_ok_of_toOption (by decide +kernel)
    obtain ⟨location, hlocation⟩ := (tokenize_render_iff hn h "b").2
      ⟨_, rfl, "y ", ' ', rfl, by decide, by decide⟩
    exact ⟨_, location, h, hlocation⟩

end TraitMarkup
