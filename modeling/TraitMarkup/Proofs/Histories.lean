import TraitMarkup.Proofs.Nesting

/-!
# Histories of an indentation

An indentation may be asked to take one indent after another, whether it refuses them or not, and to
close all blocks in between (`Call`). Whatever it has been asked, the markers that it has given count
the steps of its level (`Tracked`), and what is fixed stays fixed (`Keeps`). A refused indent may fix
the blank without a step; the level is zero then, so nothing has to be divided by a step that is not
there (`measure?_eq`).
-/

namespace TraitMarkup

namespace Indentation

variable {t t' : Indentation} {ws : List Char} {ms : List Marker} {cause : ScanError.Cause}

/-! ## Calls and answers -/

/-- What an indentation may be asked. -/
inductive Call where
  | measure (indent : List Char)
  | close

/-- The answer to a call, and the state afterwards. -/
def answer (t : Indentation) : Call → Except ScanError.Cause (List Marker) × Indentation
  | .measure indent => t.measure indent
  | .close => (.ok t.close.1, t.close.2)

/-- The state after some calls. -/
def after (t : Indentation) (calls : List Call) : Indentation :=
  calls.foldl (fun t call => (t.answer call).2) t

/-- The answers to some calls, one by one. -/
def answers (t : Indentation) : List Call → List (Except ScanError.Cause (List Marker))
  | [] => []
  | call :: calls => (t.answer call).1 :: answers (t.answer call).2 calls

/-- All markers in some answers. -/
def given (answers : List (Except ScanError.Cause (List Marker))) : List Marker :=
  answers.flatMap fun r => r.toOption.getD []

theorem after_append (t : Indentation) (calls calls' : List Call) :
    t.after (calls ++ calls') = (t.after calls).after calls' :=
  List.foldl_append

/-- To close all blocks is to go back to the start of a line. -/
theorem answer_close (t : Indentation) : t.answer .close = t.measure [] := rfl

/-! ## Refused indents -/

/-- An indent is refused for a blank that is not the one in use, or for a width that is not a whole
number of steps. The blank is fixed all the same. -/
theorem measure_error (h : t.measure ws = (.error cause, t')) : ∃ c ∈ ws.head?,
    t' = { t with blank := some (t.blank.getD c) } ∧
      ((cause = .mixedIndent ∧ ∃ d ∈ ws, d ≠ t.blank.getD c) ∨
        ∃ s, t.step = some s ∧ cause = .unevenIndent ws.length s ∧ ¬s ∣ ws.length ∧
          ∀ d ∈ ws, d = t.blank.getD c) := by
  match ws with
  | [] => cases h
  | c :: cs =>
    simp only [measure] at h
    refine ⟨c, rfl, ?_⟩
    split at h
    · rename_i hmixed
      cases h
      exact ⟨rfl, .inl ⟨rfl, by simpa using hmixed⟩⟩
    split at h
    · rename_i hblank hmod
      cases h
      refine ⟨rfl, .inr ?_⟩
      cases hs : t.step with
      | none =>
        rw [hs] at hmod
        exact absurd (Nat.mod_self _) hmod
      | some s =>
        rw [hs] at hmod
        exact ⟨s, rfl, rfl, fun hdvd => hmod (Nat.mod_eq_zero_of_dvd hdvd), by simpa using hblank⟩
    · cases h

/-! ## What is fixed stays fixed -/

/-- The blank and the step, where they are fixed, are the same in a later state. -/
structure Keeps (t t' : Indentation) : Prop where
  blank : ∀ c, t.blank = some c → t'.blank = some c
  step : ∀ s, t.step = some s → t'.step = some s

theorem keeps_measure (t : Indentation) (ws : List Char) : t.Keeps (t.measure ws).2 := by
  cases hm : t.measure ws with
  | mk r t' =>
    cases r with
    | error cause =>
      obtain ⟨c, -, rfl, -⟩ := measure_error hm
      refine ⟨fun d hd => ?_, fun s hs => hs⟩
      simp only [hd, Option.getD_some]
    | ok ms =>
      match ws with
      | [] =>
        rw [measure_nil] at hm
        cases hm
        exact ⟨fun c hc => hc, fun s hs => hs⟩
      | c :: cs =>
        obtain ⟨blank, step, width, rfl, -, rfl, -, -, -, rfl⟩ := measure_cons hm
        refine ⟨fun d hd => ?_, fun s hs => ?_⟩
        · simp only [hd, Option.getD_some]
        · simp only [hs, Option.getD_some]

theorem keeps_answer (t : Indentation) (call : Call) : t.Keeps (t.answer call).2 := by
  cases call with
  | measure ws => exact keeps_measure t ws
  | close =>
    rw [answer_close]
    exact keeps_measure t []

theorem keeps_after (t : Indentation) (calls : List Call) : t.Keeps (t.after calls) := by
  induction calls generalizing t with
  | nil => exact ⟨fun c hc => hc, fun s hs => hs⟩
  | cons call calls ih =>
    have hfirst := keeps_answer t call
    have hlater := ih (t.answer call).2
    exact ⟨fun c hc => hlater.blank c (hfirst.blank c hc),
      fun s hs => hlater.step s (hfirst.step s hs)⟩

/-! ## Markers and levels -/

/-- How many more blocks some markers open than they close. -/
def balance (ms : List Marker) : Int := ms.count .indent - ms.count .dedent

theorem balance_append (ms ms' : List Marker) :
    balance (ms ++ ms') = balance ms + balance ms' := by
  simp only [balance, List.count_append]
  omega

theorem balance_markers (d d' : Nat) : balance (markers 1 d d') = d' - d := by
  unfold markers
  split <;> simp [balance, List.count_replicate] <;> omega

/-- A state and all markers given on the way to it. -/
structure Tracked (t : Indentation) (ms : List Marker) : Prop where
  sound : t.Sound
  blank : t.step.isSome → t.blank.isSome
  unfixed : t.step = none → ms = []
  balance : balance ms = t.depth

theorem tracked_fresh : Tracked fresh [] := ⟨sound_fresh, nofun, fun _ => rfl, rfl⟩

/-- A step that is there to divide by. -/
theorem Tracked.exists_step (h : Tracked t ms) (hlevel : t.level ≠ 0) :
    ∃ s, t.step = some s ∧ 0 < s := by
  cases hs : t.step with
  | none => exact absurd (h.sound.unfixed hs) hlevel
  | some s =>
    have hpos := h.sound.pos
    rw [hs] at hpos
    exact ⟨s, rfl, hpos⟩

/-- An indent that is taken fixes the blank with the step. -/
theorem Tracked.measure_ok (h : Tracked t ms) {new : List Marker}
    (hm : t.measure ws = (.ok new, t')) : Tracked t' (ms ++ new) := by
  obtain ⟨hsound, hnew, -, hfixed⟩ := Indentation.measure_ok h.sound hm
  refine ⟨hsound, ?_, fun hnone => ?_, ?_⟩
  · match ws with
    | [] =>
      rw [measure_nil] at hm
      cases hm
      exact h.blank
    | c :: cs =>
      obtain ⟨blank, step, width, -, -, -, -, -, -, rfl⟩ := measure_cons hm
      exact fun _ => rfl
  · -- Before there was no step either, and so the depth has been and is zero.
    have hdepth := hsound.depth_unfixed hnone
    rw [hnone, hdepth, Option.isSome_none, eq_comm, Bool.or_eq_false_iff] at hfixed
    have hstep : t.step = none := by simpa using hfixed.1
    rw [h.unfixed hstep, hnew, h.sound.depth_unfixed hstep, hdepth, markers_self]
    rfl
  · rw [balance_append, hnew, balance_markers, h.balance]
    omega

/-- A refused indent leaves the level and the step, and all else but for a blank that is not fixed. -/
theorem Tracked.measure_error (h : Tracked t ms) (hm : t.measure ws = (.error cause, t')) :
    t'.level = t.level ∧ t'.step = t.step ∧
      (cause ≠ .mixedIndent ∨ t.blank.isSome → t' = t) ∧ Tracked t' ms := by
  obtain ⟨c, -, rfl, hcause⟩ := Indentation.measure_error hm
  refine ⟨rfl, rfl, fun hwhy => ?_, ⟨h.sound.pos, h.sound.dvd, h.sound.unfixed⟩, fun _ => rfl,
    h.unfixed, h.balance⟩
  have hblank : t.blank.isSome := by
    rcases hcause with ⟨rfl, -⟩ | ⟨s, hs, -⟩
    · exact hwhy.resolve_left (absurd rfl)
    · exact h.blank (by rw [hs]; rfl)
  obtain ⟨b, hb⟩ := Option.isSome_iff_exists.mp hblank
  rw [hb, Option.getD_some, ← hb]

theorem Tracked.measure (h : Tracked t ms) (ws : List Char) :
    Tracked (t.measure ws).2 (ms ++ (t.measure ws).1.toOption.getD []) := by
  cases hm : t.measure ws with
  | mk r t' =>
    cases r with
    | error cause =>
      have htracked := (h.measure_error hm).2.2.2
      rwa [← List.append_nil ms] at htracked
    | ok new => exact h.measure_ok hm

theorem Tracked.answer (h : Tracked t ms) (call : Call) :
    Tracked (t.answer call).2 (ms ++ (t.answer call).1.toOption.getD []) := by
  cases call with
  | measure ws => exact h.measure ws
  | close =>
    rw [answer_close]
    exact h.measure []

theorem Tracked.after (h : Tracked t ms) (calls : List Call) :
    Tracked (t.after calls) (ms ++ given (t.answers calls)) := by
  induction calls generalizing t ms with
  | nil => rwa [← List.append_nil ms] at h
  | cons call calls ih =>
    have hlater := ih (h.answer call)
    rwa [List.append_assoc] at hlater

/-! ## Divisions -/

/-- A step to divide by, where it is fixed and not zero. -/
def divisor? (step : Option Nat) : Option Nat := step.filter (· ≠ 0)

/-- The markers from one width to another, where they can be counted in steps. -/
def markers? (step : Option Nat) (old new : Nat) : Option (List Marker) :=
  if old < new then (divisor? step).map fun s => List.replicate ((new - old) / s) .indent
  else if new < old then (divisor? step).map fun s => List.replicate ((old - new) / s) .dedent
  else some []

/-- Takes an indent and does not go on where there is nothing to divide by. The step is fixed before
the width is compared with it. -/
def measure? (t : Indentation) (indent : List Char) :
    Option (Except ScanError.Cause (List Marker) × Indentation) :=
  match indent with
  | [] => (markers? t.step t.level 0).map fun ms => (.ok ms, { t with level := 0 })
  | c :: _ =>
    let blank := t.blank.getD c
    if indent.any (· != blank) then some (.error .mixedIndent, { t with blank := some blank })
    else
      let step := t.step.getD indent.length
      (divisor? (some step)).bind fun s =>
        if indent.length % s ≠ 0 then
          some (.error (.unevenIndent indent.length s), ⟨t.level, some blank, some step⟩)
        else
          (markers? (some step) t.level indent.length).map fun ms =>
            (.ok ms, ⟨indent.length, some blank, some step⟩)

/-- Closes all open blocks and does not go on where there is nothing to divide by. -/
def close? (t : Indentation) : Option (List Marker × Indentation) :=
  if t.level = 0 then some ([], t)
  else (markers? t.step t.level 0).map fun ms => (ms, { t with level := 0 })

theorem divisor?_some {s : Nat} (h : 0 < s) : divisor? (some s) = some s := by
  simp [divisor?, Nat.ne_of_gt h]

theorem markers?_eq {step : Option Nat} {old new : Nat}
    (h : old ≠ new → ∃ s, step = some s ∧ 0 < s) :
    markers? step old new = some (markers (step.getD 1) old new) := by
  by_cases heq : old = new
  · subst heq
    rw [markers_self]
    simp [markers?]
  · obtain ⟨s, rfl, hs⟩ := h heq
    rw [markers?, divisor?_some hs, markers]
    split
    · rfl
    · rw [if_pos (by omega)]
      rfl

/-- All divisions can be done. -/
theorem Tracked.measure?_eq (h : Tracked t ms) (ws : List Char) :
    t.measure? ws = some (t.measure ws) := by
  match ws with
  | [] =>
    rw [measure?, markers?_eq h.exists_step]
    rfl
  | c :: cs =>
    have hstep : 0 < t.step.getD (c :: cs).length := by
      cases hs : t.step with
      | none => exact Nat.succ_pos _
      | some s =>
        have hpos := h.sound.pos
        rwa [hs] at hpos
    simp only [measure?, Indentation.measure, divisor?_some hstep, Option.bind_some]
    split
    · rfl
    split
    · rename_i hmod
      cases hs : t.step with
      | none =>
        rw [hs] at hmod
        exact absurd (Nat.mod_self _) hmod
      | some s => rfl
    · rw [markers?_eq fun _ => ⟨_, rfl, hstep⟩]
      rfl

theorem Tracked.close?_eq (h : Tracked t ms) : t.close? = some t.close := by
  unfold close?
  split
  · rename_i hzero
    rw [close, hzero, markers_self, ← hzero]
  · rw [markers?_eq h.exists_step]
    rfl

/-! ## Every state that is reached -/

/-- Whatever has been asked of an indentation: a level above zero is a whole number of steps, and the
blank is fixed before the step. Neither changes any more. The steps in the level are the blocks opened
less those closed, and without a step there has been no marker. A refused indent leaves the level and
the step as they are, and the blank too, if it is refused for its width or the blank is fixed. No
division has to be done without a step. -/
theorem invariant_after_calls (calls : List Call) :
    let t := fresh.after calls
    let ms := given (fresh.answers calls)
    (0 < t.level → t.step.isSome) ∧
      (∀ s, t.step = some s → 0 < s ∧ s ∣ t.level ∧ t.blank.isSome) ∧
      (∀ more, t.Keeps (fresh.after (calls ++ more))) ∧
      (∀ s : Nat, t.step = some s → s * (ms.count .indent - ms.count .dedent : Int) = t.level) ∧
      (t.step = none → t.level = 0 ∧ ms = []) ∧
      (∀ ws cause t', t.measure ws = (.error cause, t') → t'.level = t.level ∧ t'.step = t.step ∧
        (cause ≠ .mixedIndent ∨ t.blank.isSome → t' = t)) ∧
      (∀ ws, t.measure? ws = some (t.measure ws)) ∧ t.close? = some t.close := by
  intro t ms
  have h : Tracked t ms := tracked_fresh.after calls
  refine ⟨fun hlevel => ?_, fun s hs => ?_, fun more => ?_, fun s hs => ?_, fun hs => ?_,
    fun ws cause t' hm => ?_, h.measure?_eq, h.close?_eq⟩
  · obtain ⟨s, hs, -⟩ := h.exists_step (Nat.ne_of_gt hlevel)
    rw [hs]
    rfl
  · have hpos := h.sound.pos
    have hdvd := h.sound.dvd
    rw [hs] at hpos hdvd
    exact ⟨hpos, hdvd, h.blank (by rw [hs]; rfl)⟩
  · rw [after_append]
    exact keeps_after t more
  · have hdvd := h.sound.dvd
    have hbalance := h.balance
    rw [depth] at hbalance
    rw [hs, Option.getD_some] at hbalance hdvd
    rw [← balance, hbalance, ← Int.natCast_mul, Nat.mul_div_cancel' hdvd]
  · exact ⟨h.sound.unfixed hs, h.unfixed hs⟩
  · obtain ⟨hlevel, hstep, hsame, -⟩ := h.measure_error hm
    exact ⟨hlevel, hstep, hsame⟩

-- A refused indent fixes the blank alone; another one may still fix the step.
example : (fresh.after [.measure [' ', '\t']] = ⟨0, some ' ', none⟩) ∧
    fresh.after [.measure [' ', '\t'], .measure ['\t'], .measure [' ', ' '], .close] =
      ⟨0, some ' ', some 2⟩ := by decide

end Indentation

end TraitMarkup
