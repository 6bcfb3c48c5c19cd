import CssLex.Diagnostic.Basic
import CssLex.Token.Basic

/-!
Diagnostics about malformed tokens. Each malformed token gives one diagnostic at its place.
-/

namespace CssLex

/-- What is wrong with a malformed token and how to mend it. -/
def TokenKind.complaint? : TokenKind → Option (String × String)
  | .badString =>
    some ("unterminated string",
      "close the string before the line break, or escape the newline with \x60\\\x60")
  | .badUrl =>
    some ("malformed url",
      "quote the url, or escape spaces, quotes and parentheses with \x60\\\x60")
  | .badComment => some ("unterminated comment", "close the comment with \x60*/\x60")
  | _ => none

/-- The diagnostic about a token, if it is malformed. -/
def Diagnostic.ofToken? (severity : Severity) (token : Token) : Option Diagnostic :=
  token.kind.complaint?.map fun (message, suggestion) =>
    { severity, message, span := some token.span, line := some token.line,
      suggestion := some suggestion }

/-- The diagnostics about the malformed ones among some tokens. -/
def Report.ofTokens (severity : Severity) (tokens : List Token) : Report :=
  ⟨tokens.filterMap (Diagnostic.ofToken? severity)⟩

/-- How malformed tokens are reported. -/
inductive MalformedPolicy where
  | error
  | warning
  | ignore
deriving Repr, DecidableEq

/-- The severity of malformed tokens, or `none` if nothing is said about them. -/
def MalformedPolicy.severity? : MalformedPolicy → Option Severity
  | error => some .error
  | warning => some .warning
  | ignore => none

/-- The report about some tokens under a policy. -/
def MalformedPolicy.report (policy : MalformedPolicy) (tokens : List Token) : Report :=
  match policy.severity? with
  | some severity => .ofTokens severity tokens
  | none => {}

end CssLex
