import TraitMarkup.Location
import TraitMarkup.Text.Uppercase

/-! # Diagnostics

What there is to say about a fault: a message, a place, and perhaps advice. -/

namespace TraitMarkup

structure Diagnostic where
  message : String
  location : Location
  severity : String
  code : Option String
  help : Option String
  suggestions : Option (List String)
  deriving DecidableEq

/-- The report, over several lines. Advice shows only if there is some. -/
def Diagnostic.report (d : Diagnostic) : String :=
  let help :=
    match d.help with
    | none | some "" => ""
    | some text => s!"  help: {text}\n"
  let suggestions :=
    match d.suggestions with
    | none | some [] => ""
    | some items => "  suggestions:\n" ++ String.join (items.map fun item => s!"    - {item}\n")
  s!"{Text.upper d.severity}: {d.message}\n  --> {d.location.text}\n" ++ help ++ suggestions

end TraitMarkup
