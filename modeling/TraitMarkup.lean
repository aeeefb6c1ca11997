import TraitMarkup.Main
import TraitMarkup.Proofs.Characters
import TraitMarkup.Proofs.Lexeme
import TraitMarkup.Proofs.Pieces
import TraitMarkup.Proofs.Scanning
import TraitMarkup.Proofs.Coverage
import TraitMarkup.Proofs.Writing
import TraitMarkup.Proofs.Nesting
import TraitMarkup.Proofs.RoundTrip
import TraitMarkup.Proofs.Canonical
import TraitMarkup.Proofs.Grammar
import TraitMarkup.Proofs.Placing
import TraitMarkup.Proofs.SingleLine
import TraitMarkup.Proofs.Indents
import TraitMarkup.Proofs.LineByLine
import TraitMarkup.Proofs.Alike
import TraitMarkup.Proofs.LineText
import TraitMarkup.Proofs.Spacing
import TraitMarkup.Proofs.LineStart
import TraitMarkup.Proofs.BareLines
import TraitMarkup.Proofs.Faults
import TraitMarkup.Proofs.ExpressionText
import TraitMarkup.Proofs.Refusals
import TraitMarkup.Proofs.Independence
import TraitMarkup.Proofs.TokenReports
import TraitMarkup.Proofs.Layout
import TraitMarkup.Proofs.ReadBack
import TraitMarkup.Proofs.Histories
import TraitMarkup.Proofs.RegularIndents
import TraitMarkup.Proofs.Concatenation
import TraitMarkup.Proofs.SkippedLines
import TraitMarkup.Proofs.LineReports
import TraitMarkup.Proofs.Integers
import TraitMarkup.Proofs.ShortestDecimals
import TraitMarkup.Proofs.NumberText
import TraitMarkup.Proofs.Positions
import TraitMarkup.Proofs.Contexts
