/-!
What can go wrong while tokens are pulled. Malformed style sheets are no error: they give
malformed tokens.
-/

namespace CssLex

/-- The largest offset and the largest line number that the scanner counts to. -/
def characterLimit : Nat := 4294967295

/-- The causes for which a scanner or a tokenizer fails. -/
inductive LexError where
  /-- The source could not deliver its next character. -/
  | unreadable (reason : String)
  /-- An offset or a line number would pass `characterLimit`. -/
  | tooLong
  /-- A token was pushed back while another one was waiting for its replay. -/
  | replayPending
  /-- A token was pushed back before any had been fetched. -/
  | nothingToReplay
  /-- A window does not lie inside its array. -/
  | invalidRange (lo hi size : Nat)
  /-- A numeric literal has no value. -/
  | malformedNumber (literal : String)
deriving Repr, DecidableEq

namespace LexError

/-- The text that reports an error to a user. -/
def message : LexError → String
  | unreadable reason => "failed to read input: " ++ reason
  | tooLong =>
      "failed to read input: input exceeds " ++ toString characterLimit ++ " characters"
  | replayPending => "a token is already pending replay"
  | nothingToReplay => "no token has been read yet"
  | invalidRange lo hi size =>
      "character window " ++ toString lo ++ ".." ++ toString hi ++
        " is out of bounds for an array of length " ++ toString size
  | malformedNumber literal => "malformed numeric literal \x60" ++ literal ++ "\x60"

end LexError
end CssLex
