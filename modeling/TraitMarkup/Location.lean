import TraitMarkup.Text.Quoted

/-! # Places in a text

A position moves along a text character by character. A location names a position in a file. -/

namespace TraitMarkup

/-- A place in a text. Lines and columns count from one, the offset from zero, all in characters. -/
structure Position where
  line : Nat
  column : Nat
  offset : Nat
  deriving DecidableEq

namespace Position

/-- The place of a text's first character. -/
def start : Position := ⟨1, 1, 0⟩

/-- The place just after a character. -/
def next (p : Position) (c : Char) : Position :=
  if c = '\n' then ⟨p.line + 1, 1, p.offset + 1⟩ else ⟨p.line, p.column + 1, p.offset + 1⟩

/-- The place just after some characters. -/
def after (p : Position) (cs : List Char) : Position := cs.foldl next p

@[simp] theorem after_nil (p : Position) : p.after [] = p := rfl

@[simp] theorem after_cons (p : Position) (c : Char) (cs : List Char) :
    p.after (c :: cs) = (p.next c).after cs := rfl

@[simp] theorem after_append (p : Position) (cs ds : List Char) :
    p.after (cs ++ ds) = (p.after cs).after ds := List.foldl_append

end Position

/-- A place in a named file. Tokens made by hand may carry any numbers. -/
structure Location where
  file : String
  line : Int
  column : Int
  offset : Int
  deriving DecidableEq

namespace Location

/-- The location of what comes from no text. -/
def unknown : Location := ⟨"<unknown>", 0, 0, 0⟩

/-- The form in reports. -/
def text (l : Location) : String := s!"{l.file}:{l.line}:{l.column}"

/-- The form in which all fields show. -/
def details (l : Location) : String :=
  s!"SourceLocation({Text.quoted l.file}, {l.line}, {l.column}, {l.offset})"

end Location

/-- The location of a position in the named file. -/
def Position.inFile (p : Position) (file : String) : Location := ⟨file, p.line, p.column, p.offset⟩

end TraitMarkup
