import Mathlib.Data.List.Induction
import Mathlib.Logic.Relation
import TraitMarkup.Proofs.Placing

/-!
# The scanner, one character at a time

A `Cursor` goes through a text from left to right. In one step it takes the next character, or it
takes none and turns to something else, or it adds to the tokens (`Cursor.Moves`). Whatever happens,
its position stays that of the first character that is not read, and every place it has made a note
of is that of an earlier step (`Cursor.Sound.runs`).
-/

namespace TraitMarkup

open Token (Body)

/-! ## Places in a text -/

/-- The position is one in the text: the line counts the line feeds before it, the column the
characters after the last of them. -/
structure Position.Marks (p : Position) (text : List Char) : Prop where
  offset : p.offset ≤ text.length
  line : p.line = 1 + (text.take p.offset).count '\n'
  column : p.column = 1 + ((text.take p.offset).reverse.takeWhile (· != '\n')).length

theorem Position.column_after_start (read : List Char) :
    (Position.start.after read).column = 1 + (read.reverse.takeWhile (· != '\n')).length := by
  induction read using List.reverseRecOn with
  | nil => rfl
  | append_singleton read c ih =>
    rw [after_append, after_cons, after_nil, next, List.reverse_concat]
    split
    · rename_i hc
      rw [List.takeWhile_cons_of_neg (by simp [hc])]
      rfl
    · rename_i hc
      rw [List.takeWhile_cons_of_pos (by simp [hc]), List.length_cons, ih]
      rfl

/-- The position after some of a text is one in the text. -/
theorem Position.marks_after (read rest : List Char) :
    (Position.start.after read).Marks (read ++ rest) := by
  have hoffset : (Position.start.after read).offset = read.length := by
    rw [offset_after, start, Nat.zero_add]
  have htake : (read ++ rest).take (Position.start.after read).offset = read := by
    rw [hoffset, List.take_left]
  refine ⟨?_, ?_, ?_⟩
  · rw [hoffset, List.length_append]
    exact Nat.le_add_right _ _
  · rw [htake, line_after, start]
  · rw [htake, column_after_start]

/-- A location in the named file that is one in the text. -/
def Location.Marks (l : Location) (file : String) (text : List Char) : Prop :=
  ∃ p : Position, p.Marks text ∧ l = p.inFile file

/-- Tokens that are in the text, in its order. -/
structure InPlace (file : String) (text : List Char) (tokens : List Token) : Prop where
  marks : ∀ u ∈ tokens, u.location.Marks file text
  sorted : tokens.Pairwise fun u v => u.location.offset ≤ v.location.offset

theorem InPlace.append {file : String} {text : List Char} {tokens new : List Token} {p : Position}
    (h : InPlace file text tokens) (hp : p.Marks text)
    (hbefore : ∀ u ∈ tokens, u.location.offset ≤ p.offset)
    (hnew : ∀ u ∈ new, u.location = p.inFile file) : InPlace file text (tokens ++ new) := by
  have hoffset : ∀ u ∈ new, u.location.offset = p.offset := by
    intro u hu
    rw [hnew u hu]
    rfl
  constructor
  · intro u hu
    rcases List.mem_append.mp hu with hu | hu
    · exact h.marks u hu
    · exact ⟨p, hp, hnew u hu⟩
  · rw [List.pairwise_append]
    refine ⟨h.sorted, ?_, ?_⟩
    · apply List.pairwise_of_forall_mem_list
      intro u hu v hv
      exact Int.le_of_eq ((hoffset u hu).trans (hoffset v hv).symm)
    · intro u hu v hv
      rw [hoffset v hv]
      exact hbefore u hu

/-! ## Steps -/

namespace Cursor

/-- What a cursor is in the middle of. The places are those where it began. -/
inductive Mode where
  /-- The blanks at the start of a text that is one line: all of them have to be `blank`. -/
  | leading (blank : Option Char)
  /-- The blanks at the start of a line. -/
  | indent (first : Position) (blanks : List Char)
  | between
  | comment
  /-- A word, or a literal with the given quote. -/
  | run (first : Position) (quote : Option Char) (lexeme value : List Char)
  /-- The same, after a backslash. -/
  | escape (back first : Position) (quote : Option Char) (lexeme value : List Char)
  | numeral (first : Position) (lexeme : List Char)
  /-- A symbol that may join with an equals sign. -/
  | operator (first : Position) (s : Symbol)
  /-- A token has been read. -/
  | complete (first : Position) (body : Body) (lexeme : List Char)
  | done
  | failed (cause : ScanError.Cause) (blamed : Position)

/-- The places that a mode has made a note of. -/
def Mode.notes : Mode → List Position
  | .leading _ | .between | .comment | .done => []
  | .indent first _ | .run first .. | .numeral first _ | .operator first _ | .complete first .. =>
    [first]
  | .escape back first .. => [back, first]
  | .failed _ blamed => [blamed]

/-- The characters that go on a word or a literal as they are. -/
def plain : Option Char → Char → Bool
  | none => Word.isContinue
  | some quote => plainIn quote

end Cursor

/-- The scanner on its way through a text. -/
structure Cursor where
  unread : List Char
  position : Position
  tokens : List Token
  indentation : Indentation
  mode : Cursor.Mode

namespace Cursor

/-- Before the first step. A text that is one line starts with its leading blanks, any other with the
indent of its first line. -/
def initial (single : Bool) (text : List Char) : Cursor :=
  ⟨text, .start, [], .fresh, if single then .leading text.head? else .indent .start []⟩

/-- The cursor past the next character. -/
def past (s : Cursor) (c : Char) (rest : List Char) (m : Mode) : Cursor :=
  { s with unread := rest, position := s.position.next c, mode := m }

/-- The cursor at the same place. -/
def turn (s : Cursor) (m : Mode) : Cursor := { s with mode := m }

/-- The cursor with more tokens. -/
def push (s : Cursor) (tokens : List Token) (m : Mode) : Cursor :=
  { s with tokens := s.tokens ++ tokens, mode := m }

/-- What starts with the next character. -/
def opening (single : Bool) (s : Cursor) (c : Char) (rest : List Char) : Cursor :=
  if c = '#' then s.turn .comment
  else if c = '\n' then s.past c rest (if single then .between else .indent (s.position.next c) [])
  else if c = '"' ∨ c = '\'' then s.past c rest (.run s.position (some c) [c] [])
  else if Text.isDecimal c then s.turn (.numeral s.position [])
  else if c = '\\' ∨ Word.isStart c then s.turn (.run s.position none [] [])
  else
    match Symbol.ofChar? c with
    | some o => s.past c rest (.operator s.position o)
    | none =>
      if Text.isBlank c then s.past c rest .between
      else s.turn (.failed (.invalidCharacter c) s.position)

/-- The indent of a line has been read, and there is something behind it. -/
def measured (file : String) (s : Cursor) (first : Position) (blanks : List Char) : Cursor :=
  match s.indentation.measure blanks with
  | (.error cause, t) => { s with indentation := t }.turn (.failed cause first)
  | (.ok markers, t) =>
    { s with indentation := t }.push (markers.map (.ofMarker (first.inFile file))) .between

/-- The end of the text. All open blocks are closed, unless the text is one line. -/
def ending (file : String) (single : Bool) (s : Cursor) : Cursor :=
  if single then s.turn .done
  else { s with indentation := s.indentation.close.2 }.push
    (s.indentation.close.1.map (.ofMarker (s.position.inFile file))) .done

/-- One step, as long as there is something to do. Of the text, it looks at the next character only. -/
def step (file : String) (single : Bool) (s : Cursor) : Option Cursor :=
  match s.mode, s.unread with
  | .leading _, [] => s.turn .between
  | .leading blank, c :: rest =>
    if Text.isBlank c then
      if some c = blank then s.past c rest (.leading blank)
      else s.turn (.failed .mixedIndent s.position)
    else s.turn .between
  | .indent .., [] => s.turn .between
  | .indent first blanks, c :: rest =>
    if Text.isBlank c ∧ c ≠ '\n' then s.past c rest (.indent first (blanks ++ [c]))
    else if c = '\n' ∨ c = '#' then s.turn .between
    else s.measured file first blanks
  | .between, [] => s.ending file single
  | .between, c :: rest => s.opening single c rest
  | .comment, [] => s.turn .between
  | .comment, c :: rest => if c = '\n' then s.turn .between else s.past c rest .comment
  | .run first none lexeme value, [] =>
    s.turn (.complete first (.identifier (String.ofList value)) lexeme)
  | .run first (some quote) _ value, [] =>
    s.turn (.failed (.unterminated quote (String.ofList value)) first)
  | .run first quote lexeme value, c :: rest =>
    if c = '\\' then s.past c rest (.escape s.position first quote (lexeme ++ [c]) value)
    else if plain quote c then s.past c rest (.run first quote (lexeme ++ [c]) (value ++ [c]))
    else
      match quote with
      | none => s.turn (.complete first (.identifier (String.ofList value)) lexeme)
      | some _ => s.past c rest (.complete first (.string (String.ofList value)) (lexeme ++ [c]))
  | .escape back .., [] => s.turn (.failed .danglingEscape back)
  | .escape _ first quote lexeme value, c :: rest =>
    s.past c rest (.run first quote (lexeme ++ [c]) (value ++ [c]))
  | .numeral first lexeme, [] =>
    s.turn (.complete first (.number (.ofNumeral lexeme)) lexeme)
  | .numeral first lexeme, c :: rest =>
    if Text.isDecimal c ∨ c = '.' ∧ '.' ∉ lexeme then s.past c rest (.numeral first (lexeme ++ [c]))
    else if c = '\\' then s.turn (.run first none lexeme lexeme)
    else s.turn (.complete first (.number (.ofNumeral lexeme)) lexeme)
  | .operator first o, [] => s.turn (.complete first (.symbol o .none) o.chars)
  | .operator first o, c :: rest =>
    match o.withEquals? with
    | some joined =>
      if c = '=' then s.past c rest (.complete first (.symbol joined .none) joined.chars)
      else s.turn (.complete first (.symbol o .none) o.chars)
    | none => s.turn (.complete first (.symbol o .none) o.chars)
  | .complete first body lexeme, _ =>
    s.push [⟨body, String.ofList lexeme, first.inFile file⟩] .between
  | .done, _ | .failed .., _ => none

/-! ## What a step can do -/

variable {file : String} {single : Bool} {s s' : Cursor} {text : List Char}

/-- A step takes the next character or none. If it adds tokens, then all at one place. What it makes
a note of is its own place, before or after the step, if it is not known already. -/
structure Moves (file : String) (s s' : Cursor) : Prop where
  text : s'.unread = s.unread ∧ s'.position = s.position ∨
    ∃ c, s.unread = c :: s'.unread ∧ s'.position = s.position.next c
  tokens : s'.tokens = s.tokens ∨ ∃ p tokens, (p = s.position ∨ p ∈ s.mode.notes) ∧
    s'.tokens = s.tokens ++ tokens ∧ (∀ u ∈ tokens, u.location = p.inFile file) ∧
    s'.mode.notes = []
  notes : ∀ p ∈ s'.mode.notes, p = s.position ∨ p = s'.position ∨ p ∈ s.mode.notes

namespace Moves

theorem past {c : Char} {rest : List Char} {m : Mode} (h : s.unread = c :: rest)
    (hm : ∀ p ∈ m.notes, p = s.position ∨ p = s.position.next c ∨ p ∈ s.mode.notes) :
    Moves file s (s.past c rest m) :=
  ⟨.inr ⟨c, h, rfl⟩, .inl rfl, hm⟩

theorem turn {m : Mode} (hm : ∀ p ∈ m.notes, p = s.position ∨ p ∈ s.mode.notes) :
    Moves file s (s.turn m) :=
  ⟨.inl ⟨rfl, rfl⟩, .inl rfl, fun p hp => (hm p hp).imp_right .inr⟩

theorem push {p : Position} {tokens : List Token} {m : Mode} (hp : p = s.position ∨ p ∈ s.mode.notes)
    (htokens : ∀ u ∈ tokens, u.location = p.inFile file) (hm : m.notes = []) :
    Moves file s (s.push tokens m) :=
  ⟨.inl ⟨rfl, rfl⟩, .inr ⟨p, tokens, hp, rfl, htokens, hm⟩, fun q hq => by
    have hq : q ∈ m.notes := hq
    simp [hm] at hq⟩

theorem of_indentation {t : Indentation} (h : Moves file { s with indentation := t } s') :
    Moves file s s' :=
  ⟨h.text, h.tokens, h.notes⟩

theorem opening {c : Char} {rest : List Char} (h : s.unread = c :: rest) :
    Moves file s (s.opening single c rest) := by
  unfold Cursor.opening
  split
  · exact turn (by simp [Mode.notes])
  split
  · apply past h
    cases single <;> simp [Mode.notes]
  split
  · exact past h (by simp [Mode.notes])
  split
  · exact turn (by simp [Mode.notes])
  split
  · exact turn (by simp [Mode.notes])
  split
  · exact past h (by simp [Mode.notes])
  split
  · exact past h (by simp [Mode.notes])
  · exact turn (by simp [Mode.notes])

theorem measured {first : Position} (blanks : List Char) (h : first ∈ s.mode.notes) :
    Moves file s (s.measured file first blanks) := by
  unfold Cursor.measured
  split
  · apply of_indentation (turn _)
    intro p hp
    obtain rfl := List.mem_singleton.mp hp
    exact .inr h
  · exact of_indentation (push (.inr h) (by simp [Token.ofMarker]) rfl)

theorem ending : Moves file s (s.ending file single) := by
  unfold Cursor.ending
  split
  · exact turn (by simp [Mode.notes])
  · exact of_indentation (push (.inl rfl) (by simp [Token.ofMarker]) rfl)

theorem of_step (h : s.step file single = some s') : Moves file s s' := by
  obtain ⟨unread, position, tokens, indentation, mode⟩ := s
  cases unread with
  | nil =>
    cases mode with
    | between =>
      cases h
      exact ending
    | run first quote =>
      cases quote <;> cases h <;> exact turn (by simp [Mode.notes])
    | complete first body lexeme =>
      cases h
      exact push (p := first) (.inr (by simp [Mode.notes])) (by simp) rfl
    | done | failed => cases h
    | leading | indent | comment | escape | numeral | operator =>
      cases h
      exact turn (by simp [Mode.notes])
  | cons c rest =>
    cases mode with
    | between =>
      cases h
      exact opening rfl
    | leading blank =>
      simp only [step] at h
      split at h
      · split at h <;> cases h
        · exact past rfl (by simp [Mode.notes])
        · exact turn (by simp [Mode.notes])
      · cases h
        exact turn (by simp [Mode.notes])
    | indent first blanks =>
      simp only [step] at h
      split at h
      · cases h
        exact past rfl (by simp [Mode.notes])
      · split at h <;> cases h
        · exact turn (by simp [Mode.notes])
        · exact measured blanks (by simp [Mode.notes])
    | comment =>
      simp only [step] at h
      split at h <;> cases h
      · exact turn (by simp [Mode.notes])
      · exact past rfl (by simp [Mode.notes])
    | run first quote lexeme value =>
      simp only [step] at h
      split at h
      · cases h
        exact past rfl (by simp [Mode.notes])
      · split at h
        · cases h
          exact past rfl (by simp [Mode.notes])
        · cases quote <;> cases h
          · exact turn (by simp [Mode.notes])
          · exact past rfl (by simp [Mode.notes])
    | escape back first quote lexeme value =>
      cases h
      exact past rfl (by simp [Mode.notes])
    | numeral first lexeme =>
      simp only [step] at h
      split at h
      · cases h
        exact past rfl (by simp [Mode.notes])
      · split at h <;> cases h <;> exact turn (by simp [Mode.notes])
    | operator first o =>
      simp only [step] at h
      split at h
      · split at h <;> cases h
        · exact past rfl (by simp [Mode.notes])
        · exact turn (by simp [Mode.notes])
      · cases h
        exact turn (by simp [Mode.notes])
    | complete first body lexeme =>
      cases h
      exact push (p := first) (.inr (by simp [Mode.notes])) (by simp) rfl
    | done | failed => cases h

end Moves

/-! ## What a run keeps -/

/-- The position is that of the first character not read. -/
def Follows (text : List Char) (s : Cursor) : Prop :=
  ∃ read, text = read ++ s.unread ∧ s.position = Position.start.after read

theorem Follows.marks (h : Follows text s) : s.position.Marks text := by
  obtain ⟨read, htext, hposition⟩ := h
  rw [htext, hposition]
  exact Position.marks_after read s.unread

theorem Follows.moves (h : Follows text s) (hmoves : Moves file s s') : Follows text s' := by
  obtain ⟨read, htext, hread⟩ := h
  rcases hmoves.text with ⟨hunread, hnext⟩ | ⟨c, hunread, hnext⟩
  · exact ⟨read, by rw [hunread, htext], by rw [hnext, hread]⟩
  · refine ⟨read ++ [c], ?_, ?_⟩
    · rw [htext, hunread, List.append_assoc, List.singleton_append]
    · rw [hnext, hread, Position.after_append, Position.after_cons, Position.after_nil]

theorem Moves.offset_le (h : Moves file s s') : s.position.offset ≤ s'.position.offset := by
  rcases h.text with ⟨-, hnext⟩ | ⟨c, -, hnext⟩
  · exact Nat.le_of_eq (congrArg Position.offset hnext.symm)
  · have hoffset : s'.position.offset = s.position.offset + [c].length := by
      rw [hnext]
      exact Position.offset_after s.position [c]
    omega

/-- The places that a cursor knows: its own, and those of which it has made a note. -/
def known (s : Cursor) : List Position := s.position :: s.mode.notes

theorem Moves.mem_known (h : Moves file s s') {p : Position} (hp : p ∈ s'.known) :
    p = s'.position ∨ p ∈ s.known := by
  rcases List.mem_cons.mp hp with hp | hp
  · exact .inl hp
  · rcases h.notes p hp with hold | hnew | hnote
    · exact .inr (List.mem_cons.mpr (.inl hold))
    · exact .inl hnew
    · exact .inr (List.mem_cons.mpr (.inr hnote))

/-- All known places are in the text up to here, and so are the tokens, with none behind a known
place. -/
structure Sound (file : String) (text : List Char) (s : Cursor) : Prop where
  follows : Follows text s
  known : ∀ p ∈ s.known, p.Marks text ∧ p.offset ≤ s.position.offset
  inPlace : InPlace file text s.tokens
  before : ∀ u ∈ s.tokens, ∀ p ∈ s.known, u.location.offset ≤ p.offset

namespace Sound

theorem initial (single : Bool) (text : List Char) : Sound file text (initial single text) := by
  have hknown : ∀ p ∈ (Cursor.initial single text).known, p = .start := by
    cases single <;> simp [Cursor.initial, Cursor.known, Mode.notes]
  refine ⟨⟨[], rfl, rfl⟩, ?_, ⟨by simp [Cursor.initial], .nil⟩, by simp [Cursor.initial]⟩
  intro p hp
  rw [hknown p hp]
  exact ⟨Position.marks_after [] text, Nat.le_refl _⟩

theorem known_moves (h : Sound file text s) (hmoves : Moves file s s') :
    ∀ p ∈ s'.known, p.Marks text ∧ p.offset ≤ s'.position.offset := by
  intro p hp
  rcases hmoves.mem_known hp with rfl | hp
  · exact ⟨(h.follows.moves hmoves).marks, Nat.le_refl _⟩
  · obtain ⟨hmarks, hle⟩ := h.known p hp
    exact ⟨hmarks, Nat.le_trans hle hmoves.offset_le⟩

theorem before_moves (h : Sound file text s) (hmoves : Moves file s s') :
    ∀ u ∈ s.tokens, ∀ p ∈ s'.known, u.location.offset ≤ p.offset := by
  intro u hu p hp
  rcases hmoves.mem_known hp with rfl | hp
  · have hbefore := h.before u hu s.position List.mem_cons_self
    have hle := hmoves.offset_le
    omega
  · exact h.before u hu p hp

/-- A step keeps all this. -/
theorem moves (h : Sound file text s) (hmoves : Moves file s s') : Sound file text s' := by
  have hfollows := h.follows.moves hmoves
  have hknown := h.known_moves hmoves
  have hbefore := h.before_moves hmoves
  rcases hmoves.tokens with htokens | ⟨p, tokens, hp, htokens, hlocation, hnil⟩
  · rw [← htokens] at hbefore
    exact ⟨hfollows, hknown, htokens ▸ h.inPlace, hbefore⟩
  · -- the new tokens are all at `p`, which no other is behind
    have hp : p ∈ s.known := List.mem_cons.mpr hp
    obtain ⟨hmarks, hle⟩ := h.known p hp
    refine ⟨hfollows, hknown, ?_, ?_⟩
    · rw [htokens]
      exact h.inPlace.append hmarks (fun u hu => h.before u hu p hp) hlocation
    · intro u hu q hq
      rcases List.mem_append.mp (htokens ▸ hu) with hu | hu
      · exact hbefore u hu q hq
      · obtain rfl : q = s'.position := by simpa [Cursor.known, hnil] using hq
        have hnext := hmoves.offset_le
        have hoffset : u.location.offset = p.offset := congrArg Location.offset (hlocation u hu)
        omega

end Sound

/-- A cursor gets to another in some steps. -/
def Runs (file : String) (single : Bool) : Cursor → Cursor → Prop :=
  Relation.ReflTransGen fun s s' => s.step file single = some s'

/-- So does a run. -/
theorem Sound.runs (h : Sound file text s) (hruns : Runs file single s s') : Sound file text s' := by
  induction hruns with
  | refl => exact h
  | tail _ hstep ih => exact ih.moves (.of_step hstep)

end Cursor

end TraitMarkup
