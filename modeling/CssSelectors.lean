import CssSelectors.Main
import CssSelectors.Proofs.Blame
import CssSelectors.Proofs.Commas
import CssSelectors.Proofs.Conservation
import CssSelectors.Proofs.Derivation
import CssSelectors.Proofs.Dialects
import CssSelectors.Proofs.Discipline
import CssSelectors.Proofs.ErrorRange
import CssSelectors.Proofs.Folding
import CssSelectors.Proofs.Gluing
import CssSelectors.Proofs.Limits
import CssSelectors.Proofs.Microsyntax
import CssSelectors.Proofs.Nested
import CssSelectors.Proofs.Outside
import CssSelectors.Proofs.Rendering
import CssSelectors.Proofs.Tokens.Slices
import CssSelectors.Proofs.Carrying
import CssSelectors.Proofs.Stopping
import CssSelectors.Proofs.Ending
import CssSelectors.Proofs.Places
import CssSelectors.Proofs.Blanks
import CssSelectors.Proofs.Checked
import CssSelectors.Proofs.Registry
import CssSelectors.Proofs.Tokens.Escapes
import CssSelectors.Proofs.Warnings
import CssSelectors.Proofs.Tokens.Numerals
import CssSelectors.Proofs.Tokens.Parentheses
import CssSelectors.Proofs.Tokens.Canonical
import CssSelectors.Proofs.Tokens.Urls
import CssSelectors.Proofs.Lines
import CssSelectors.Proofs.Tokens.Signs
