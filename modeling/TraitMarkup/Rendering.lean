import TraitMarkup.Line
import TraitMarkup.Token

/-! # Rendering

Tokens are written back as text: one space between the tokens of a line, and a line break with the
indent of the new depth wherever blocks open or close. -/

namespace TraitMarkup

/-- What goes before the next token. -/
inductive Gap where
  | none | space | lineBreak
  deriving DecidableEq

/-- The text of a gap, for a block of the given depth. -/
def Gap.text (unit : String) (depth : Nat) : Gap → String
  | .none => ""
  | .space => " "
  | .lineBreak => "\n" ++ String.join (List.replicate depth unit)

/-- Writes tokens at a depth, with a gap before the first of them. -/
def renderFrom (unit : String) (depth : Nat) (gap : Gap) : List Token → String
  | [] => ""
  | t :: ts =>
    match t.body with
    | .marker .indent _ => renderFrom unit (depth + 1) .lineBreak ts
    | .marker .dedent _ => renderFrom unit (depth - 1) .lineBreak ts
    | _ => gap.text unit depth ++ t.text ++ renderFrom unit depth .space ts

/-- Tokens as text, with `unit` as the indent of one level. -/
def render (unit : String) (ts : List Token) : String := renderFrom unit 0 .none ts

end TraitMarkup
