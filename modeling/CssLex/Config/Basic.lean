import CssLex.Diagnostic.Malformed
import CssLex.FileTree

/-!
The settings of a run and the errors in loading them.
-/

namespace CssLex

/-- The forms in which tokens are written. -/
inductive OutputFormat where
  /-- A line for each token, for people. -/
  | text
  /-- A JSON object on a line for each token. -/
  | json
  /-- Source text. -/
  | css
deriving Repr, DecidableEq

/-- The settings of a run. -/
structure Config where
  /-- Whether white space, comments and their marks are left out. -/
  skipInsignificant : Bool := true
  /-- The capacity of the buffer in front of a byte stream. -/
  bufferSize : Nat := 8192
  malformed : MalformedPolicy := .error
  format : OutputFormat := .text
  /-- The file that the settings come from. -/
  source : Option Path := none
deriving Repr, DecidableEq

/-- The name under which a configuration file is searched. -/
def Config.fileName : String := "Stylescan.toml"

/-- Why there are no settings. -/
inductive ConfigError where
  /-- No configuration file lies in a directory or above it. -/
  | notFound (start : Path)
  | unreadable (reason : FileError)
  /-- The text is no document, or says something that is no setting. -/
  | malformed
  /-- The buffer would hold nothing. -/
  | emptyBuffer
deriving Repr, DecidableEq

/-- The text that reports an error to a user. -/
def ConfigError.message : ConfigError → String
  | notFound start => "no Stylescan.toml found (searched from " ++ start.render ++ ")"
  | unreadable reason => "failed to read Stylescan.toml: " ++ reason.message
  | malformed => "invalid Stylescan.toml: not a valid configuration"
  | emptyBuffer =>
    "invalid Stylescan.toml: [tokenizer] reader_buffer_size must be greater than zero"

end CssLex
