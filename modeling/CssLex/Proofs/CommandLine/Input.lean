import CssLex.Proofs.CommandLine.Report
import CssLex.Proofs.Tokenizer.Normalized

/-! A style sheet in a file and on the standard input. The file is read as a whole and the standard
input piece by piece through a buffer, and the tokens and the verdict are the same. Only the
diagnostics are shown in different ways. -/

namespace CssLex

/-- Settings that are the same but for the size of the buffer and the place they come from. -/
def Config.Alike (config config' : Config) : Prop :=
  config' = { config with bufferSize := config'.bufferSize, source := config'.source }

namespace CommandLine

/-- Command lines that ask for the same of their inputs. -/
def Options.Alike (options options' : Options) : Prop :=
  options' = { options with input := options'.input, config := options'.config }

/-- A command line is understood, and its settings are found. -/
structure Settled (fs : FileSystem) (arguments : List String) (options : Options)
    (config : Config) : Prop where
  arguments : Options.ofArguments arguments = .ok options
  config :
    Config.resolve fs (options.config.map .ofString) (options.inputFile?.map .ofString) =
      .ok config

/-- The command line names a file that holds these bytes. -/
structure ReadsFile (fs : FileSystem) (arguments : List String) (content : ByteArray)
    (options : Options) (config : Config) : Prop
    extends Settled fs arguments options config where
  input : ∃ name names, options.inputFile? = some name ∧
    fs.resolve (.ofString name) = .ok (names, .file content)

/-- The command line names no file, and the standard input serves these bytes without a
failure. -/
structure ReadsInput (fs : FileSystem) (stdin : List Delivery) (arguments : List String)
    (content : ByteArray) (options : Options) (config : Config) : Prop
    extends Settled fs arguments options config where
  input : options.inputFile? = none
  reliable : ByteReader.Reliable stdin
  content : stdin.flatMap Delivery.content = content.data.toList

section

variable {fs fs' : FileSystem} {stdin stdin' : List Delivery} {arguments arguments' : List String}
  {options options' : Options} {config config' : Config} {content : ByteArray} {text : String}
  {wording wording' : Wording}

theorem fromUTF8?_toUTF8 (text : String) : String.fromUTF8? text.toUTF8 = some text := by
  rw [String.toUTF8_eq_toByteArray, String.fromUTF8?, dif_pos text.isValidUTF8]
  rfl

theorem ReadsFile.runsOn (h : ReadsFile fs arguments text.toUTF8 options config) :
    RunsOn fs stdin options config text where
  config := h.config
  input := by
    obtain ⟨name, names, hname, hnode⟩ := h.input
    rw [hname]
    simp only [FileSystem.readText, hnode, bind, Except.bind, fromUTF8?_toUTF8]

theorem ReadsInput.runsOn (h : ReadsInput fs stdin arguments text.toUTF8 options config) :
    RunsOn fs stdin options config text where
  config := h.config
  input := by
    rw [h.input]
    exact ⟨h.reliable, h.content⟩

/-- Runs on one text that ask for the same write the same and end in the same way, whatever their
diagnostics look like. -/
theorem RunsOn.execute_congr (h : RunsOn fs stdin options config text)
    (h' : RunsOn fs' stdin' options' config' text) (hoptions : options.Alike options')
    (hconfig : config.Alike config') :
    (execute fs stdin options wording).output = (execute fs' stdin' options' wording').output ∧
      (execute fs stdin options wording).exitCode =
        (execute fs' stdin' options' wording').exitCode := by
  rw [execute_eq, execute_eq, h.examine, h'.examine, hoptions, hconfig]
  cases (Tokenizer.ofString text).tokenize with
  | error e => exact ⟨rfl, rfl⟩
  | ok found => exact ⟨rfl, rfl⟩

theorem Settled.run_eq (h : Settled fs arguments options config) (stdin : List Delivery)
    (wording : Wording) : run fs stdin arguments wording = execute fs stdin options wording := by
  rw [run, h.arguments]

/-- A style sheet gives the same output and the same exit code from a file and from the standard
input, however the standard input is cut into pieces and whatever the size of the buffer. -/
theorem run_file_agrees (hfile : ReadsFile fs arguments content options config)
    (hinput : ReadsInput fs' stdin' arguments' content options' config')
    (hvalid : content.IsValidUTF8) (hoptions : options.Alike options')
    (hconfig : config.Alike config') (wording wording' : Wording) :
    (run fs stdin arguments wording).output = (run fs' stdin' arguments' wording').output ∧
      (run fs stdin arguments wording).exitCode =
        (run fs' stdin' arguments' wording').exitCode := by
  obtain ⟨text, rfl⟩ : ∃ text : String, content = text.toUTF8 := ⟨⟨content, hvalid⟩, rfl⟩
  rw [hfile.run_eq, hinput.run_eq]
  exact hfile.runsOn.execute_congr hinput.runsOn hoptions hconfig

/-! ## What is shown of malformed tokens -/

/-- On the standard input nothing is kept to draw in, so each diagnostic is told in the words of the
tool. -/
theorem ReadsInput.errors (h : ReadsInput fs stdin arguments text.toUTF8 options config)
    {found : List Token} (htokenize : (Tokenizer.ofString text).tokenize = .ok found) :
    (run fs stdin arguments wording).errors =
      String.join (((config.malformed.report
        (told (passesOver options config) found)).diagnostics.filter fun d =>
          d.isError || !options.quiet).map complaint) := by
  have hreport := execute_of_report? fs stdin options wording
  rw [h.runsOn.report?_eq, htokenize] at hreport
  rw [h.run_eq, hreport.1, h.runsOn.document?, h.input]
  have hplain : presentation wording none = complaint := by
    funext d
    unfold presentation
    cases d.span <;> rfl
  rw [Option.map_none, complaints, hplain]

/-- A diagnostic about a text is drawn in a document with a mark on a malformed token. The mark
holds a character, and it does not go beyond the text that is displayed. -/
theorem presentation_of_report {policy : MalformedPolicy} {skipping : Bool} {found : List Token}
    {d : Diagnostic} (htokenize : (Tokenizer.ofString text).tokenize = .ok found)
    (hd : d ∈ (policy.report (told skipping found)).diagnostics) (document : Document) :
    ∃ token ∈ found, token.kind.isMalformed = true ∧
      presentation wording (some document) d =
        wording.excerpt { document, diagnostic := d, marked := token.span } ∧
      token.span.start < token.span.stop ∧
      token.span.stop ≤ (normalize text.toList).length := by
  obtain ⟨token, hmem, hmalformed, hspan⟩ := exists_token_of_report hd
  have hfound := (mem_told.mp hmem).1
  rw [Tokenizer.tokenize_text] at htokenize
  split at htokenize
  · cases htokenize
    have hkind : token.kind ≠ .eof := by
      intro heof
      rw [heof] at hmalformed
      cases hmalformed
    have hlt := Grammar.tokens_start_lt_stop hfound hkind
    have hle := (Grammar.tokens_span hfound).2
    rw [Nat.zero_add] at hle
    refine ⟨token, hfound, hmalformed, ?_, hlt, hle⟩
    have hmark : token.span.mark = token.span := by
      rw [Span.mark, Span.isEmpty, if_neg]
      simpa using Nat.ne_of_lt hlt
    simp only [presentation, hspan, hmark]
  · cases htokenize

end

/-- A machine with a style sheet alone: a comment that is not closed. -/
def oneFile : FileSystem :=
  { root := .directory [("a", .file "/*".toUTF8)], current := [] }

theorem resolve_oneFile : oneFile.resolve (.ofString "a") = .ok (["a"], .file "/*".toUTF8) := by
  cbv

theorem loadFrom_oneFile :
    Config.loadFrom oneFile (.ofNames []) = .error (.notFound (.ofNames [])) := by
  rw [Config.loadFrom, oneFile, find?_root rfl]

theorem loadFor_oneFile :
    Config.loadFor oneFile ((oneFile.canonical? (.ofString "a")).getD (.ofString "a")) =
      .error (.notFound (.ofNames [])) := by
  have hcanonical : oneFile.canonical? (.ofString "a") = some (.ofNames ["a"]) := by
    rw [FileSystem.canonical?, resolve_oneFile]
    exact if_neg (by decide)
  have hdirectory : oneFile.isDirectory (.ofNames ["a"]) = false := by cbv
  have hstart : Config.searchStart oneFile (.ofNames ["a"]) = .ofNames [] := by
    rw [Config.searchStart, hdirectory]
    decide
  rw [hcanonical, Option.getD_some, Config.loadFor, hstart, loadFrom_oneFile]

theorem readsFile_oneFile :
    ReadsFile oneFile ["a", "--check"] "/*".toUTF8 { input := some "a", check := true } {} where
  arguments := by decide
  config := by
    change Config.resolve oneFile none (some (.ofString "a")) = _
    unfold Config.resolve
    dsimp only
    rw [loadFor_oneFile]
  input := ⟨"a", ["a"], by decide, resolve_oneFile⟩

/-- The bytes of the style sheet, one by one and with an interruption. -/
def oneByOne : List Delivery := [.bytes [0x2F], .interrupted, .bytes [0x2A]]

theorem readsInput_oneByOne :
    ReadsInput oneFile oneByOne ["--check", "-"] "/*".toUTF8
      { input := some "-", check := true } {} where
  arguments := by decide
  config := by
    change Config.resolve oneFile none none = _
    unfold Config.resolve
    dsimp only
    rw [show oneFile.current = [] from rfl, loadFrom_oneFile]
  input := by decide
  reliable := by simp [ByteReader.Reliable, oneByOne]
  content := by
    rw [Utf8.toList_toUTF8]
    decide

theorem run_file_agrees_of_oneFile :
    (run oneFile [] ["a", "--check"]).output = (run oneFile oneByOne ["--check", "-"]).output ∧
      (run oneFile [] ["a", "--check"]).exitCode =
        (run oneFile oneByOne ["--check", "-"]).exitCode :=
  run_file_agrees readsFile_oneFile readsInput_oneByOne ("/*".isValidUTF8) rfl rfl {} {}

end CommandLine
end CssLex
