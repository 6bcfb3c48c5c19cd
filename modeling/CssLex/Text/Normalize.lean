import CssLex.Scanner.Basic

/-!
Preprocessing of a whole text. A normalized text is what the offsets of tokens count in, so it is
the one to show next to them.
-/

namespace CssLex

/-- A text after preprocessing: one line feed for each line end, and no NUL. -/
def normalize : List Char → List Char
  | [] => []
  | '\r' :: '\n' :: rest => '\n' :: normalize rest
  | c :: rest => Scanner.preprocess c :: normalize rest

end CssLex
