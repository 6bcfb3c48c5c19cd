import CssLex.CommandLine.Run

/-!
The executable. It takes the files that a run may look at into a tree, lets the run be computed, and
writes what comes out. Help, refusals and diagnostics in a file are shown in plain words.
-/

namespace CssLex
namespace CommandLine

/-- What the tool is for, and how it is called. -/
def usageText : String :=
  "CSS tokenizer.\n\n" ++
  "Prints the token stream of a style sheet and reports unterminated strings,\n" ++
  "malformed urls and unterminated comments.\n\n" ++
  "Examples:\n" ++
  "  stylescan site.css                One line per significant token\n" ++
  "  stylescan site.css --all          Include whitespace and comments\n" ++
  "  stylescan site.css --format json  One JSON object per token\n" ++
  "  stylescan site.css --check        Report malformed tokens only\n" ++
  "  cat site.css | stylescan          Tokenize standard input\n\n" ++
  "Usage: stylescan [OPTIONS] [INPUT]\n\n" ++
  "Arguments:\n" ++
  "  [INPUT]\n          Input style sheet; reads standard input when omitted or \x60-\x60\n\n" ++
  "Options:\n" ++
  "      --all\n          Include whitespace, comments, \x60<!--\x60 and \x60-->\x60 tokens\n\n" ++
  "      --format <FORMAT>\n" ++
  "          Output format (default: from Stylescan.toml, else text)\n\n" ++
  "          [possible values: text, json, css]\n\n" ++
  "      --config <CONFIG>\n          Configuration file (default: nearest Stylescan.toml)\n\n" ++
  "  -q, --quiet\n          Suppress warning output\n\n" ++
  "      --check\n          Report malformed tokens without printing the token stream\n\n" ++
  "  -h, --help\n          Print help\n\n" ++
  "  -V, --version\n          Print version\n"

/-- Why a command line is not run, in one line. -/
def refusalText : Refusal → String
  | .displayHelp => usageText
  | .displayVersion => versionText ++ "\n"
  | .unknownArgument argument => "error: unexpected argument '" ++ argument ++ "' found\n"
  | .invalidValue argument => "error: invalid or missing value at '" ++ argument ++ "'\n"
  | .argumentConflict argument =>
    "error: the argument '" ++ argument ++ "' cannot be used multiple times\n"
  | .tooManyValues argument => "error: the argument '" ++ argument ++ "' takes no value\n"

/-- A diagnostic of a file is written as one of the standard input is. -/
def plainWording : Wording where
  refusal := refusalText
  excerpt e := complaint e.diagnostic

/-- The tree with what stands at the end of some names. Reading tells a directory from a file. -/
def withNode (tree : FileTree) (names : List String) : IO FileTree := do
  try
    let content ← IO.FS.readBinFile (Path.ofNames names).render
    pure (FileTree.insert (.file content) names tree)
  catch
    | .inappropriateType _ 21 _ => pure (tree.insertDirectory names)
    | .permissionDenied .. => pure (FileTree.insert .locked names tree)
    | _ => pure tree

/-- The names of a path from the root, as its own names lead there one after another. -/
def stations (current : List String) (p : Path) : List (List String) :=
  let walk (state : List String × List (List String)) (name : String) :=
    let here := if name = ".." then state.1.dropLast else state.1 ++ [name]
    (here, here :: state.2)
  (p.names.foldl walk (if p.isAbsolute then [] else current, [])).2.reverse

/-- The tree with the nodes along a path and the configuration files above each of them. -/
def withPath (current : List String) (tree : FileTree) (p : Path) : IO FileTree := do
  let along := stations current p
  let above := (current :: along).flatMap fun names => Path.prefixesOfReversed names.reverse
  let candidates := above.eraseDups.map fun names => names ++ [Config.fileName]
  (along ++ candidates).foldlM withNode tree

/-- The files that a run may look at. -/
def filesFor (options : Options) : IO FileSystem := do
  let current := (Path.ofString (toString (← IO.currentDir))).names
  let named := [some ".", options.config, options.inputFile?].filterMap id
  let empty := (FileTree.directory []).insertDirectory current
  let root ← (named.map Path.ofString).foldlM (withPath current) empty
  pure { root, current }

/-- All bytes of a stream, behind those that were read. -/
partial def readAll (stream : IO.FS.Stream) (read : ByteArray) : IO ByteArray := do
  let chunk ← stream.read 65536
  if chunk.isEmpty then pure read else readAll stream (read ++ chunk)

/-- The standard input, if the options ask for it. -/
def stdinFor (options : Options) : IO (List Delivery) := do
  if options.inputFile?.isSome then pure []
  else
    let content ← readAll (← IO.getStdin) ByteArray.empty
    pure [.bytes content.toList]

/-- The outcome of a command line in the world as it is. -/
def observe (arguments : List String) : IO Outcome := do
  match Options.ofArguments arguments with
  | .error refusal => pure (refusal.outcome plainWording)
  | .ok options => pure (execute (← filesFor options) (← stdinFor options) options plainWording)

end CommandLine
end CssLex

open CssLex.CommandLine in
def main (arguments : List String) : IO UInt32 := do
  let outcome ← observe arguments
  let stdout ← IO.getStdout
  stdout.putStr outcome.output
  stdout.flush
  let stderr ← IO.getStderr
  stderr.putStr outcome.errors
  pure (UInt32.ofNat outcome.exitCode)
