import Mathlib.Data.List.Induction
import TraitMarkup.Proofs.Histories

/-!
# Regular indents

Which indents can be taken one after another is said here of the list as a whole (`Regular`), without
a state that goes from one to the next. The state that a regular list leads to is read off the list
(`regularState`), and so the first indent that makes the list irregular is the first one refused.
-/

namespace TraitMarkup

namespace Indentation

variable {ws vs : List (List Char)} {v w : List Char} {i : Nat}

/-! ## Lists of indents -/

/-- The first indent that is not empty, or an empty one. -/
def firstIndent (ws : List (List Char)) : List Char := (ws.find? (!·.isEmpty)).getD []

/-- All indents repeat one blank, and their widths are multiples of the first that is not zero. -/
structure Regular (ws : List (List Char)) : Prop where
  blank : ∃ c, ∀ w ∈ ws, ∀ d ∈ w, d = c
  step : ∀ w ∈ ws, (firstIndent ws).length ∣ w.length

/-- An indent that repeats the blank of the first one, with a multiple of its width. -/
structure Fits (first w : List Char) : Prop where
  blank : ∀ c ∈ w, c ∈ first.head?
  step : first.length ∣ w.length

theorem fits_nil (first : List Char) : Fits first [] := ⟨by simp, Nat.dvd_zero _⟩

theorem mem_firstIndent (h : firstIndent ws ≠ []) : firstIndent ws ∈ ws := by
  unfold firstIndent at h ⊢
  cases hfind : ws.find? (!·.isEmpty) with
  | none => simp [hfind] at h
  | some w => exact List.mem_of_find?_eq_some hfind

theorem eq_nil_of_firstIndent (h : firstIndent ws = []) : ∀ w ∈ ws, w = [] := by
  unfold firstIndent at h
  cases hfind : ws.find? (!·.isEmpty) with
  | none => simpa using List.find?_eq_none.mp hfind
  | some w =>
    have hne := List.find?_some hfind
    rw [hfind, Option.getD_some] at h
    simp [h] at hne

theorem firstIndent_append (ws vs : List (List Char)) : firstIndent (ws ++ vs) =
    if firstIndent ws = [] then firstIndent vs else firstIndent ws := by
  have hne : ∀ w, ws.find? (!·.isEmpty) = some w → w ≠ [] := by
    intro w hw
    simpa using List.find?_some hw
  unfold firstIndent
  rw [List.find?_append]
  cases hfind : ws.find? (!·.isEmpty) with
  | none => simp
  | some w => simp [hne w hfind]

theorem firstIndent_take (ws : List (List Char)) (i : Nat) :
    firstIndent (ws.take i) = [] ∨ firstIndent (ws.take i) = firstIndent ws := by
  have happend := firstIndent_append (ws.take i) (ws.drop i)
  rw [List.take_append_drop] at happend
  by_cases hnil : firstIndent (ws.take i) = []
  · exact .inl hnil
  · rw [if_neg hnil] at happend
    exact .inr happend.symm

theorem firstIndent_singleton (w : List Char) : firstIndent [w] = w := by
  cases w <;> rfl

/-- One common blank is the one that the first indent starts with. -/
theorem regular_iff : Regular ws ↔ ∀ w ∈ ws, Fits (firstIndent ws) w := by
  constructor
  · rintro ⟨⟨b, hb⟩, hstep⟩ w hw
    refine ⟨fun c hc => ?_, hstep w hw⟩
    have hne : firstIndent ws ≠ [] := fun hnil => by
      rw [eq_nil_of_firstIndent hnil w hw] at hc
      cases hc
    have hfirst := hb _ (mem_firstIndent hne)
    match hmatch : firstIndent ws with
    | [] => exact absurd hmatch hne
    | d :: ds =>
      rw [hmatch] at hfirst
      rw [hb w hw c hc, ← hfirst d List.mem_cons_self]
      rfl
  · intro h
    refine ⟨⟨(firstIndent ws).head?.getD ' ', fun w hw c hc => ?_⟩, fun w hw => (h w hw).step⟩
    rw [Option.mem_def.mp ((h w hw).blank c hc)]
    rfl

theorem regular_nil : Regular [] := ⟨⟨' ', by simp⟩, by simp⟩

/-- Indents that come later matter only to those that come later still. -/
theorem regular_append : Regular (ws ++ vs) ↔
    Regular ws ∧ ∀ w ∈ vs, Fits (firstIndent (ws ++ vs)) w := by
  simp only [regular_iff, List.forall_mem_append]
  refine and_congr_left fun _ => ?_
  rw [firstIndent_append]
  split
  · rename_i hnil
    have hfits : ∀ first, ∀ w ∈ ws, Fits first w := by
      intro first w hw
      rw [eq_nil_of_firstIndent hnil w hw]
      exact fits_nil first
    exact iff_of_true (hfits _) (hfits _)
  · exact Iff.rfl

theorem regular_concat :
    Regular (ws ++ [w]) ↔ Regular ws ∧ Fits (firstIndent (ws ++ [w])) w := by
  rw [regular_append, List.forall_mem_singleton]

theorem Regular.take (h : Regular ws) (i : Nat) : Regular (ws.take i) := by
  rw [← List.take_append_drop i ws] at h
  exact (regular_append.mp h).1

theorem take_succ_eq (h : ws[i]? = some w) : ws.take (i + 1) = ws.take i ++ [w] := by
  rw [List.take_add_one, h]
  rfl

/-- A list that is not regular has a first indent that is to blame. -/
theorem exists_irregular (h : ¬Regular ws) :
    ∃ i w, ws[i]? = some w ∧ Regular (ws.take i) ∧ ¬Regular (ws.take (i + 1)) := by
  induction ws using List.reverseRecOn with
  | nil => exact absurd regular_nil h
  | append_singleton ws v ih =>
    by_cases hws : Regular ws
    · refine ⟨ws.length, v, List.getElem?_concat_length, ?_, ?_⟩
      · rwa [List.take_left]
      · rwa [List.take_of_length_le (by simp)]
    · obtain ⟨i, w, hw, hbefore, hafter⟩ := ih hws
      have hlt : i < ws.length := (List.getElem?_eq_some_iff.mp hw).1
      refine ⟨i, w, ?_, ?_, ?_⟩
      · rwa [List.getElem?_append_left hlt]
      · rwa [List.take_append_of_le_length (Nat.le_of_lt hlt)]
      · rwa [List.take_append_of_le_length hlt]

/-! ## The state after a regular list -/

/-- The state to which regular indents lead. -/
def regularState (ws : List (List Char)) : Indentation where
  level := (ws.getLast?.getD []).length
  blank := (firstIndent ws).head?
  step := if firstIndent ws = [] then none else some (firstIndent ws).length

/-- The blank to be repeated by one more indent, and the step to be a multiple of. -/
theorem getD_regularState (ws : List (List Char)) (c : Char) (cs : List Char) :
    (firstIndent (ws ++ [c :: cs])).head? = some ((regularState ws).blank.getD c) ∧
      (firstIndent (ws ++ [c :: cs])).length =
        (regularState ws).step.getD (c :: cs).length := by
  rw [firstIndent_append, firstIndent_singleton, regularState]
  cases firstIndent ws with
  | nil => exact ⟨rfl, rfl⟩
  | cons d ds => exact ⟨rfl, rfl⟩

theorem regularState_concat (ws : List (List Char)) (c : Char) (cs : List Char) :
    regularState (ws ++ [c :: cs]) = ⟨(c :: cs).length,
      some ((regularState ws).blank.getD c),
      some ((regularState ws).step.getD (c :: cs).length)⟩ := by
  obtain ⟨hblank, hstep⟩ := getD_regularState ws c cs
  have hne : firstIndent (ws ++ [c :: cs]) ≠ [] := fun hnil => by
    rw [hnil] at hblank
    cases hblank
  rw [regularState, hblank, hstep, if_neg hne, List.getLast?_concat]
  rfl

theorem regularState_concat_nil (ws : List (List Char)) :
    regularState (ws ++ [[]]) = { regularState ws with level := 0 } := by
  have hfirst : firstIndent (ws ++ [[]]) = firstIndent ws := by
    rw [firstIndent_append, firstIndent_singleton]
    split
    · rename_i hnil
      exact hnil.symm
    · rfl
  rw [regularState, hfirst, List.getLast?_concat]
  rfl

theorem level_of_forall_nil (h : ∀ w ∈ ws, w = []) : (regularState ws).level = 0 := by
  cases hlast : ws.getLast? with
  | none => simp [regularState, hlast]
  | some v => simp [regularState, hlast, h v (List.mem_of_getLast? hlast)]

/-- An indent that fits is taken. -/
theorem measure_regular (hw : Fits (firstIndent (ws ++ [w])) w) :
    (regularState ws).measure w =
      (.ok (markers (firstIndent (ws ++ [w])).length (regularState ws).level w.length),
        regularState (ws ++ [w])) := by
  match w with
  | [] =>
    rw [measure_nil, regularState_concat_nil, firstIndent_append, firstIndent_singleton]
    cases hfirst : firstIndent ws with
    | nil =>
      -- There has been no indent, so there is none to close, in whatever steps.
      rw [level_of_forall_nil (eq_nil_of_firstIndent hfirst), List.length_nil, markers_self,
        markers_self]
    | cons d ds => simp [regularState, hfirst]
  | c :: cs =>
    obtain ⟨hblank, hstep⟩ := getD_regularState ws c cs
    have hall : ∀ d ∈ c :: cs, d = (regularState ws).blank.getD c := by
      intro d hd
      have hmem := hw.blank d hd
      rw [hblank] at hmem
      exact (Option.some.inj hmem).symm
    have hsame : (regularState ws).blank.getD ((regularState ws).blank.getD c) =
        (regularState ws).blank.getD c := by
      cases (regularState ws).blank <;> rfl
    have hdvd : (regularState ws).step.getD (c :: cs).length ∣ (c :: cs).length := by
      rw [← hstep]
      exact hw.step
    rw [measure_run (List.cons_ne_nil c cs) hall hsame hdvd, regularState_concat, hstep]

/-- An indent that does not fit is refused, for its blanks in the first place. -/
theorem measure_irregular (hw : ¬Fits (firstIndent (ws ++ [w])) w) :
    ∃ cause, ((regularState ws).measure w).1 = .error cause ∧
      ((∃ c ∈ w, c ∉ (firstIndent (ws ++ [w])).head?) → cause = .mixedIndent) ∧
      ((∀ c ∈ w, c ∈ (firstIndent (ws ++ [w])).head?) →
        cause = .unevenIndent w.length (firstIndent (ws ++ [w])).length) := by
  match w with
  | [] => exact absurd (fits_nil _) hw
  | c :: cs =>
    obtain ⟨hblank, hstep⟩ := getD_regularState ws c cs
    rw [hblank]
    cases hm : (regularState ws).measure (c :: cs) with
    | mk r t' =>
      cases r with
      | ok ms =>
        obtain ⟨blank, step, width, rfl, rfl, rfl, hall, hdvd, -, -⟩ := measure_cons hm
        refine absurd ⟨fun d hd => ?_, ?_⟩ hw
        · rw [hblank, hall d hd]
          rfl
        · rwa [hstep]
      | error cause =>
        refine ⟨cause, rfl, ?_⟩
        obtain ⟨_, ⟨⟩, -, ⟨rfl, d, hd, hne⟩ | ⟨s, hs, rfl, -, hall⟩⟩ := measure_error hm
        · refine ⟨fun _ => rfl, fun hsame => ?_⟩
          exact absurd (Option.some.inj (hsame d hd)).symm hne
        · rw [hs] at hstep
          refine ⟨fun hother => ?_, fun _ => by rw [hstep]; rfl⟩
          obtain ⟨d, hd, hne⟩ := hother
          exact absurd (congrArg some (hall d hd).symm) hne

theorem after_regular (h : Regular ws) : fresh.after (ws.map .measure) = regularState ws := by
  induction ws using List.reverseRecOn with
  | nil => rfl
  | append_singleton ws w ih =>
    obtain ⟨hws, hw⟩ := regular_concat.mp h
    rw [List.map_append, after_append, ih hws]
    exact congrArg Prod.snd (measure_regular hw)

/-! ## Answers one by one -/

theorem getElem?_answers (t : Indentation) (calls : List Call) (i : Nat) :
    (t.answers calls)[i]? =
      calls[i]?.map fun call => ((t.after (calls.take i)).answer call).1 := by
  induction calls generalizing t i with
  | nil => rfl
  | cons call calls ih =>
    match i with
    | 0 => rfl
    | i + 1 => exact ih (t.answer call).2 i

theorem getElem?_measures (h : Regular (ws.take i)) (hw : ws[i]? = some w) :
    (fresh.answers (ws.map .measure))[i]? = some ((regularState (ws.take i)).measure w).1 := by
  rw [getElem?_answers, List.getElem?_map, hw, ← List.map_take, after_regular h]
  rfl

/-- The level before an indent is the width of the one before. -/
theorem level_regularState (hv : ([] :: ws)[i]? = some v) :
    (regularState (ws.take i)).level = v.length := by
  match i with
  | 0 =>
    cases hv
    rfl
  | i + 1 =>
    have hv : ws[i]? = some v := hv
    rw [regularState, take_succ_eq hv, List.getLast?_concat]
    rfl

theorem getElem?_regular (h : Regular (ws.take (i + 1))) (hv : ([] :: ws)[i]? = some v)
    (hw : ws[i]? = some w) : (fresh.answers (ws.map .measure))[i]? =
      some (.ok (markers (firstIndent ws).length v.length w.length)) := by
  have hfirst := firstIndent_take ws (i + 1)
  rw [take_succ_eq hw] at h hfirst
  obtain ⟨hbefore, hfits⟩ := regular_concat.mp h
  rw [getElem?_measures hbefore hw, measure_regular hfits, level_regularState hv]
  rcases hfirst with hnil | hfirst
  · -- All indents so far are empty, and it does not matter what a step is.
    obtain ⟨hempty, hlast⟩ := List.forall_mem_append.mp (eq_nil_of_firstIndent hnil)
    rw [List.forall_mem_singleton.mp hlast, ← level_regularState hv, level_of_forall_nil hempty,
      List.length_nil, markers_self, markers_self]
  · rw [hfirst]

theorem getElem?_irregular (hbefore : Regular (ws.take i)) (h : ¬Regular (ws.take (i + 1)))
    (hw : ws[i]? = some w) :
    ((∃ c ∈ w, c ∉ (firstIndent ws).head?) →
      (fresh.answers (ws.map .measure))[i]? = some (.error .mixedIndent)) ∧
    ((∀ c ∈ w, c ∈ (firstIndent ws).head?) → (fresh.answers (ws.map .measure))[i]? =
      some (.error (.unevenIndent w.length (firstIndent ws).length))) := by
  have hfirst := firstIndent_take ws (i + 1)
  rw [take_succ_eq hw] at h hfirst
  have hfits : ¬Fits (firstIndent (ws.take i ++ [w])) w :=
    fun hfits => h (regular_concat.mpr ⟨hbefore, hfits⟩)
  obtain ⟨cause, hcause, hmixed, huneven⟩ := measure_irregular hfits
  rw [getElem?_measures hbefore hw, hcause]
  rcases hfirst with hnil | hfirst
  · have hempty : w = [] := eq_nil_of_firstIndent hnil w (by simp)
    exact absurd (hempty ▸ fits_nil _) hfits
  · rw [hfirst] at hmixed huneven
    exact ⟨fun hother => by rw [hmixed hother], fun hsame => by rw [huneven hsame]⟩

theorem markers_spec (step old new : Nat) :
    (markers step old new).length = ((new : Int) - old).natAbs / step ∧
      (old < new → ∀ m ∈ markers step old new, m = .indent) ∧
      (new < old → ∀ m ∈ markers step old new, m = .dedent) := by
  unfold markers
  split
  · rename_i hlt
    refine ⟨?_, fun _ m hm => List.eq_of_mem_replicate hm, fun hgt => by omega⟩
    rw [List.length_replicate, show ((new : Int) - old).natAbs = new - old by omega]
  · rename_i hle
    refine ⟨?_, fun hlt => absurd hlt hle, fun _ m hm => List.eq_of_mem_replicate hm⟩
    rw [List.length_replicate, show ((new : Int) - old).natAbs = old - new by omega]

theorem exists_taken (h : Regular (ws.take (i + 1))) (hw : ws[i]? = some w) :
    ∃ ms, (fresh.answers (ws.map .measure))[i]? = some (.ok ms) := by
  have hlt : i < ([] :: ws).length := Nat.lt_succ_of_lt (List.getElem?_eq_some_iff.mp hw).1
  exact ⟨_, getElem?_regular h (List.getElem?_eq_getElem hlt) hw⟩

theorem exists_refused (hbefore : Regular (ws.take i)) (h : ¬Regular (ws.take (i + 1)))
    (hw : ws[i]? = some w) :
    ∃ cause, (fresh.answers (ws.map .measure))[i]? = some (.error cause) := by
  obtain ⟨hmixed, huneven⟩ := getElem?_irregular hbefore h hw
  by_cases hother : ∃ c ∈ w, c ∉ (firstIndent ws).head?
  · exact ⟨_, hmixed hother⟩
  · exact ⟨_, huneven (by simpa using hother)⟩

theorem exists_indent {r : Except ScanError.Cause (List Marker)}
    (h : r ∈ fresh.answers (ws.map .measure)) :
    ∃ (i : Nat) (w : List Char), (fresh.answers (ws.map .measure))[i]? = some r ∧
      ws[i]? = some w := by
  obtain ⟨i, hi⟩ := List.mem_iff_getElem?.mp h
  have hcall := hi
  rw [getElem?_answers, Option.map_eq_some_iff] at hcall
  obtain ⟨call, hcall, -⟩ := hcall
  rw [List.getElem?_map, Option.map_eq_some_iff] at hcall
  obtain ⟨w, hw, -⟩ := hcall
  exact ⟨i, w, hi, hw⟩

/-- The indents of a list are all taken if and only if the list is regular. Each one gives as many
markers as there are steps between its width and the one before, which is zero at first. If the list
is not regular, the first indent refused is the first with which it is not: for its blanks, if one of
them is not what the first indent starts with, and otherwise for its width. -/
theorem answers_measures (ws : List (List Char)) :
    let answers := fresh.answers (ws.map .measure)
    let first := firstIndent ws
    ((∀ r ∈ answers, ∃ ms, r = .ok ms) ↔ Regular ws) ∧
      (Regular ws → ∀ (i : Nat) (v w : List Char), ([] :: ws)[i]? = some v → ws[i]? = some w →
        ∃ ms : List Marker, answers[i]? = some (.ok ms) ∧
          ms.length = ((w.length : Int) - v.length).natAbs / first.length ∧
          (v.length < w.length → ∀ m ∈ ms, m = .indent) ∧
          (w.length < v.length → ∀ m ∈ ms, m = .dedent)) ∧
      (¬Regular ws → ∃ i w, ws[i]? = some w ∧
        Regular (ws.take i) ∧ ¬Regular (ws.take (i + 1)) ∧
        (∀ j, j < i → ∃ ms, answers[j]? = some (.ok ms)) ∧
        ((∃ c ∈ w, c ∉ first.head?) → answers[i]? = some (.error .mixedIndent)) ∧
        ((∀ c ∈ w, c ∈ first.head?) →
          answers[i]? = some (.error (.unevenIndent w.length first.length)))) := by
  intro answers first
  refine ⟨⟨fun hall => ?_, fun h r hr => ?_⟩, fun h i v w hv hw => ?_, fun h => ?_⟩
  · apply Classical.byContradiction
    intro h
    obtain ⟨i, w, hw, hbefore, hafter⟩ := exists_irregular h
    obtain ⟨cause, hcause⟩ := exists_refused hbefore hafter hw
    obtain ⟨ms, hms⟩ := hall _ (List.mem_of_getElem? hcause)
    cases hms
  · obtain ⟨i, w, hi, hw⟩ := exists_indent hr
    obtain ⟨ms, hms⟩ := exists_taken (h.take (i + 1)) hw
    exact ⟨ms, Option.some.inj (hi.symm.trans hms)⟩
  · exact ⟨_, getElem?_regular (h.take (i + 1)) hv hw, markers_spec _ _ _⟩
  · obtain ⟨i, w, hw, hbefore, hafter⟩ := exists_irregular h
    refine ⟨i, w, hw, hbefore, hafter, fun j hj => ?_, getElem?_irregular hbefore hafter hw⟩
    have hlt := (List.getElem?_eq_some_iff.mp hw).1
    have htake := hbefore.take (j + 1)
    rw [List.take_take, Nat.min_eq_left hj] at htake
    exact exists_taken htake (List.getElem?_eq_getElem (Nat.lt_trans hj hlt))

end Indentation

end TraitMarkup
