import CssLex.CommandLine.Wording
import CssLex.Config.Discovery
import CssLex.Token.Css
import CssLex.Token.Display
import CssLex.Token.Json
import CssLex.Tokenizer

/-!
A run of the tool as a function: what it writes and how it ends, given its arguments, the files and
the standard input. What it does not say in words of its own is given by a wording.
-/

namespace CssLex
namespace CommandLine

/-- What a run leaves behind. -/
structure Outcome where
  output : String := ""
  errors : String := ""
  exitCode : Nat := 0
deriving Repr, DecidableEq

/-- The name and number of the tool. -/
def versionText : String := "stylescan 0.1.0"

/-- What is left behind when the arguments are refused. Help and version are no failures. -/
def Refusal.outcome (wording : Wording) : Refusal → Outcome
  | displayVersion => { output := versionText ++ "\n" }
  | displayHelp => { output := wording.refusal displayHelp }
  | refusal => { errors := wording.refusal refusal, exitCode := 2 }

/-- A text with blanks in front up to a width. -/
def padLeft (width : Nat) (text : String) : String :=
  String.ofList (List.replicate (width - text.length) ' ') ++ text

/-- A text with blanks behind it up to a width. -/
def padRight (width : Nat) (text : String) : String :=
  text ++ String.ofList (List.replicate (width - text.length) ' ')

/-- The line of a token in the text format: its line number, its span and what it says. -/
def textLine (token : Token) : String :=
  padLeft 4 (toString token.line) ++ " " ++ padRight 11 token.span.render ++ " " ++ token.render

/-- The tokens in a format. Source text has no line ends of its own. -/
def emit (format : OutputFormat) (tokens : List Token) : String :=
  match format with
  | .text => String.join (tokens.map fun token => textLine token ++ "\n")
  | .json => String.join (tokens.map fun token => token.renderJson ++ "\n")
  | .css => String.join (tokens.map fun token => token.toCss)

/-- Whether insignificant tokens are left out. Source text needs them to keep the others apart. -/
def skips (options : Options) (config : Config) (format : OutputFormat) : Bool :=
  config.skipInsignificant && !options.all && format ≠ .css

/-- A diagnostic with its suggestion and an empty line. -/
def complaint (d : Diagnostic) : String :=
  d.render ++ "\n" ++
    (match d.suggestion with
      | some suggestion => "   = help: " ++ suggestion ++ "\n"
      | none => "") ++ "\n"

/-- How a diagnostic is shown: in its document, if there is one and the place is known, and else in
the words of the tool. -/
def presentation (wording : Wording) (document : Option Document) (d : Diagnostic) : String :=
  match d.span, document with
  | some span, some document =>
    wording.excerpt { document, diagnostic := d, marked := span.mark }
  | _, _ => complaint d

/-- The diagnostics of a report that are shown. -/
def complaints (wording : Wording) (options : Options) (document : Option Document)
    (report : Report) : String :=
  String.join <|
    (report.diagnostics.filter fun d => d.isError || !options.quiet).map
      (presentation wording document)

/-- The outcome for the tokens of an input: the tokens unless they are only checked, then the
report. -/
def finish (wording : Wording) (options : Options) (config : Config) (document : Option Document)
    (tokens : List Token) : Outcome :=
  let format := options.format.getD config.format
  let report := config.malformed.report tokens
  let listing := if options.check then "" else emit format tokens
  let verdict := if options.check && !report.hasErrors then "No errors found.\n" else ""
  { output := listing ++ verdict
    errors := complaints wording options document report
    exitCode := if report.hasErrors then 1 else 0 }

/-- An outcome that only reports why nothing was done. -/
def failure (reason : String) : Outcome := { errors := "error: " ++ reason ++ "\n", exitCode := 1 }

/-- The name of the input file; a hyphen stands for the standard input. -/
def Options.inputFile? (options : Options) : Option String :=
  options.input.filter (· ≠ "-")

/-- The characters of the input, from a file that is UTF-8 throughout or from the standard
input. -/
def inputSource (fs : FileSystem) (stdin : List Delivery) (options : Options) (config : Config) :
    Except String Source :=
  match options.inputFile? with
  | none => .ok (.ofDeliveries config.bufferSize stdin)
  | some name =>
    match fs.readText (.ofString name) with
    | .ok text => .ok (.ofString text)
    | .error reason => .error ("could not read '" ++ name ++ "': " ++ reason.message)

/-- The document of the input. Of the standard input nothing is kept. -/
def document? (fs : FileSystem) (options : Options) : Option Document :=
  options.inputFile?.bind fun name =>
    (fs.readText (.ofString name)).toOption.map (.ofFile (.ofString name))

/-- The tokens of a source that a run goes by. -/
def collectTokens (options : Options) (config : Config) (source : Source) :
    Except LexError (List Token) :=
  let format := options.format.getD config.format
  (Tokenizer.ofSource source).collect (skips options config format)

/-- The outcome of a command. -/
def execute (fs : FileSystem) (stdin : List Delivery) (options : Options) (wording : Wording) :
    Outcome :=
  match Config.resolve fs (options.config.map .ofString) (options.inputFile?.map .ofString) with
  | .error e => failure e.message
  | .ok config =>
    match inputSource fs stdin options config with
    | .error reason => failure reason
    | .ok source =>
      match collectTokens options config source with
      | .error e => failure e.message
      | .ok tokens => finish wording options config (document? fs options) tokens

/-- The outcome of a command line. -/
def run (fs : FileSystem) (stdin : List Delivery) (arguments : List String)
    (wording : Wording := {}) : Outcome :=
  match Options.ofArguments arguments with
  | .error refusal => refusal.outcome wording
  | .ok options => execute fs stdin options wording

end CommandLine
end CssLex
