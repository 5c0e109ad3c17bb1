import CssSelectors.Lexeme.Progress
import CssSelectors.Token.Nesting

/-!
# Tokenizing

Text as a list of tokens that ends in an end-of-text token.
-/

namespace CssSelectors

def placedLexemes (start : Nat) : List Char → List PlacedLexeme
  | [] => []
  | c :: text =>
    let scanned := Lexeme.scan c text
    let stop := start + (text.length + 1 - scanned.2.length)
    ⟨scanned.1, ⟨start, stop⟩⟩ :: placedLexemes stop scanned.2
termination_by text => text.length
decreasing_by exact Nat.lt_succ_of_le (Lexeme.scan_length_le c text)

/-- The tokens of a text whose first code point has offset `start`, and the end behind
them. -/
def tokensFrom (start : Nat) (text : List Char) : List Token :=
  let stop := start + text.length
  Token.nest stop (placedLexemes start text) ++ [.atom .eof ⟨stop, stop⟩]

def tokenize (text : String) : List Token :=
  tokensFrom 0 text.toList

/-- The text that is still to be read, the offset where it begins, and the tokens read so
far. -/
structure Tokenizer where
  unread : List Char
  position : Nat
  tokens : List Token

namespace Tokenizer

def ofText (text : String) : Tokenizer :=
  { unread := text.toList
    position := 0
    tokens := [] }

/-- Reads all that is unread. A further run finds nothing but the end of the text. -/
def run (tokenizer : Tokenizer) : Tokenizer :=
  { unread := []
    position := tokenizer.position + tokenizer.unread.length
    tokens := tokenizer.tokens ++ tokensFrom tokenizer.position tokenizer.unread }

theorem tokens_run_ofText (text : String) : (ofText text).run.tokens = tokenize text := rfl

end Tokenizer

end CssSelectors
