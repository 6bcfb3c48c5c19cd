import Mathlib
import CssLex.CommandLine.Run
import CssLex.Proofs.Tokenizer.Agreement

/-! What a run reports about its input. The report is made from the tokens that are not passed
over, and an unterminated comment counts as insignificant. -/

namespace CssLex

open Tokenizer

/-! ## Reports -/

/-- The tokens that a report goes by: without the insignificant ones an unterminated comment is
missing too. -/
def told (skipping : Bool) (found : List Token) : List Token :=
  found.filter fun token => !(skipping && token.kind = .badComment)

@[simp] theorem told_false (found : List Token) : told false found = found := by simp [told]

theorem mem_told {skipping : Bool} {found : List Token} {token : Token} :
    token ∈ told skipping found ↔
      token ∈ found ∧ (skipping = true → token.kind ≠ .badComment) := by
  cases skipping <;> simp [told]

theorem complaint?_of_insignificant {kind : TokenKind} (h : kind.isInsignificant = true)
    (hkind : kind ≠ .badComment) : kind.complaint? = none := by
  cases kind <;> first | rfl | contradiction

theorem ofToken?_isSome (severity : Severity) (token : Token) :
    (Diagnostic.ofToken? severity token).isSome = token.kind.isMalformed := by
  rw [Diagnostic.ofToken?, Option.isSome_map]
  cases token.kind <;> rfl

theorem severity_of_ofToken? {severity : Severity} {token : Token} {d : Diagnostic}
    (h : Diagnostic.ofToken? severity token = some d) : d.severity = severity := by
  obtain ⟨_, -, rfl⟩ := Option.map_eq_some_iff.mp h
  rfl

/-- The message of a diagnostic tells an unterminated comment from the other malformed tokens. -/
theorem message_of_ofToken? {severity : Severity} {token : Token} {d : Diagnostic}
    (h : Diagnostic.ofToken? severity token = some d) :
    d.message = "unterminated comment" ↔ token.kind = .badComment := by
  obtain ⟨⟨message, suggestion⟩, hcomplaint, rfl⟩ := Option.map_eq_some_iff.mp h
  change message = _ ↔ _
  cases hkind : token.kind <;> rw [hkind] at hcomplaint <;> cases hcomplaint <;> simp

/-- Each diagnostic of a report is about a malformed token, at its place. -/
theorem exists_token_of_report {policy : MalformedPolicy} {found : List Token} {d : Diagnostic}
    (h : d ∈ (policy.report found).diagnostics) :
    ∃ token ∈ found, token.kind.isMalformed = true ∧ d.span = some token.span := by
  unfold MalformedPolicy.report at h
  cases hseverity : policy.severity? with
  | none =>
      rw [hseverity] at h
      cases h
  | some severity =>
      rw [hseverity] at h
      obtain ⟨token, hmem, hd⟩ := List.mem_filterMap.mp h
      refine ⟨token, hmem, ?_, ?_⟩
      · rw [← ofToken?_isSome severity, hd]
        rfl
      · obtain ⟨_, -, rfl⟩ := Option.map_eq_some_iff.mp hd
        rfl

/-- Only malformed tokens are reported, so it does not matter which others are passed over. -/
theorem report_kept (policy : MalformedPolicy) (skipping : Bool) (found : List Token) :
    policy.report (kept skipping found) = policy.report (told skipping found) := by
  unfold MalformedPolicy.report
  cases policy.severity? with
  | none => rfl
  | some severity =>
      simp only [Report.ofTokens, kept, told, List.filterMap_filter, Report.mk.injEq]
      congr 1
      funext token
      cases skipping with
      | false => simp
      | true =>
          by_cases hskip : token.kind.isInsignificant = true
          · by_cases hkind : token.kind = .badComment
            · simp [hkind, TokenKind.isInsignificant]
            · simp [hskip, hkind, Diagnostic.ofToken?, complaint?_of_insignificant hskip hkind]
          · have hkind : token.kind ≠ .badComment := fun hkind => hskip (by rw [hkind]; rfl)
            simp [hskip, hkind]

theorem hasErrors_report (policy : MalformedPolicy) (found : List Token) :
    (policy.report found).hasErrors = true ↔
      policy = .error ∧ ∃ token ∈ found, token.kind.isMalformed = true := by
  have hseverity (severity : Severity) : (Report.ofTokens severity found).hasErrors = true ↔
      severity = .error ∧ ∃ token ∈ found, token.kind.isMalformed = true := by
    simp only [Report.hasErrors, Report.ofTokens, List.any_eq_true, List.mem_filterMap,
      Diagnostic.isError, decide_eq_true_eq]
    constructor
    · rintro ⟨d, ⟨token, hmem, hd⟩, herror⟩
      rw [severity_of_ofToken? hd] at herror
      exact ⟨herror, token, hmem, by rw [← ofToken?_isSome severity, hd]; rfl⟩
    · rintro ⟨rfl, token, hmem, hmalformed⟩
      rw [← ofToken?_isSome .error] at hmalformed
      obtain ⟨d, hd⟩ := Option.isSome_iff_exists.mp hmalformed
      exact ⟨d, ⟨token, hmem, hd⟩, severity_of_ofToken? hd⟩
  cases policy with
  | error => simpa [MalformedPolicy.report, MalformedPolicy.severity?] using hseverity .error
  | warning => simpa [MalformedPolicy.report, MalformedPolicy.severity?] using hseverity .warning
  | ignore => simp [MalformedPolicy.report, MalformedPolicy.severity?, Report.hasErrors]

/-- Leaving insignificant tokens out changes a report exactly if there is an unterminated
comment. -/
theorem report_told_true_eq_iff {policy : MalformedPolicy} (hpolicy : policy ≠ .ignore)
    (found : List Token) :
    policy.report (told true found) = policy.report found ↔
      ∀ token ∈ found, token.kind ≠ .badComment := by
  obtain ⟨severity, hseverity⟩ : ∃ severity, policy.severity? = some severity := by
    cases policy <;> first | exact ⟨_, rfl⟩ | contradiction
  simp only [MalformedPolicy.report, hseverity, Report.ofTokens, Report.mk.injEq]
  constructor
  · intro heq token hmem hkind
    have hmalformed : token.kind.isMalformed = true := by
      rw [hkind]
      rfl
    rw [← ofToken?_isSome severity] at hmalformed
    obtain ⟨d, hd⟩ := Option.isSome_iff_exists.mp hmalformed
    have hd' := heq ▸ List.mem_filterMap.mpr ⟨token, hmem, hd⟩
    obtain ⟨token', hmem', hd'⟩ := List.mem_filterMap.mp hd'
    have hmessage := (message_of_ofToken? hd).mpr hkind
    exact (mem_told.mp hmem').2 rfl ((message_of_ofToken? hd').mp hmessage)
  · intro hnone
    have htold : told true found = found :=
      List.filter_eq_self.mpr fun token hmem => by simp [hnone token hmem]
    rw [htold]

theorem report_told_eq_iff (policy : MalformedPolicy) (skipping skipping' : Bool)
    (found : List Token) :
    policy.report (told skipping found) = policy.report (told skipping' found) ↔
      skipping = skipping' ∨ policy = .ignore ∨ ∀ token ∈ found, token.kind ≠ .badComment := by
  by_cases hpolicy : policy = .ignore
  · subst hpolicy
    exact ⟨fun _ => .inr (.inl rfl), fun _ => rfl⟩
  · have hiff := report_told_true_eq_iff hpolicy found
    have hiff' := eq_comm.trans hiff
    cases skipping <;> cases skipping' <;> simp [hpolicy, hiff, hiff']

theorem hasErrors_told (policy : MalformedPolicy) (skipping : Bool) (found : List Token) :
    (policy.report (told skipping found)).hasErrors = true ↔
      policy = .error ∧ ∃ token ∈ found, token.kind.isMalformed = true ∧
        (skipping = true → token.kind ≠ .badComment) := by
  rw [hasErrors_report]
  refine and_congr_right fun _ => exists_congr fun token => ?_
  rw [mem_told]
  exact and_right_comm.trans and_assoc

/-! ## Runs -/

namespace CommandLine

/-- The settings and the tokens that a run goes by, or why there are none. -/
def examine (fs : FileSystem) (stdin : List Delivery) (options : Options) :
    Except String (Config × List Token) := do
  let config ←
    (Config.resolve fs (options.config.map .ofString) (options.inputFile?.map .ofString)).mapError
      ConfigError.message
  let source ← inputSource fs stdin options config
  let tokens ← (collectTokens options config source).mapError LexError.message
  pure (config, tokens)

theorem execute_eq (fs : FileSystem) (stdin : List Delivery) (options : Options)
    (wording : Wording) :
    execute fs stdin options wording =
      match examine fs stdin options with
      | .error reason => failure reason
      | .ok (config, tokens) => finish wording options config (document? fs options) tokens := by
  unfold execute examine
  cases Config.resolve fs (options.config.map .ofString) (options.inputFile?.map .ofString) with
  | error e => rfl
  | ok config =>
      cases hsource : inputSource fs stdin options config with
      | error reason => simp [Except.mapError, bind, Except.bind, hsource]
      | ok source =>
          cases htokens : collectTokens options config source <;>
            simp [Except.mapError, bind, Except.bind, pure, Except.pure, hsource, htokens]

/-- The report that a run makes, if it comes to make one. -/
def report? (fs : FileSystem) (stdin : List Delivery) (options : Options) : Option Report :=
  match examine fs stdin options with
  | .error _ => none
  | .ok (config, tokens) => some (config.malformed.report tokens)

/-- The report is what a run shows of its input beside the tokens, and what it exits by. -/
theorem execute_of_report? (fs : FileSystem) (stdin : List Delivery) (options : Options)
    (wording : Wording) :
    match report? fs stdin options with
    | none => (execute fs stdin options wording).exitCode = 1
    | some report =>
      (execute fs stdin options wording).errors =
          complaints wording options (document? fs options) report ∧
        (execute fs stdin options wording).exitCode = if report.hasErrors then 1 else 0 := by
  rw [execute_eq, report?]
  cases examine fs stdin options with
  | error reason => rfl
  | ok found => exact ⟨rfl, rfl⟩

/-- Whether a run passes over insignificant tokens. -/
def passesOver (options : Options) (config : Config) : Bool :=
  skips options config (options.format.getD config.format)

/-- A run has these settings and reads this text: from a file, or from a standard input that serves
its bytes without a failure. -/
structure RunsOn (fs : FileSystem) (stdin : List Delivery) (options : Options) (config : Config)
    (text : String) : Prop where
  config :
    Config.resolve fs (options.config.map .ofString) (options.inputFile?.map .ofString) =
      .ok config
  input :
    match options.inputFile? with
    | none =>
      ByteReader.Reliable stdin ∧ stdin.flatMap Delivery.content = text.toUTF8.data.toList
    | some name => fs.readText (.ofString name) = .ok text

section

variable {fs : FileSystem} {stdin : List Delivery} {options : Options} {config : Config}
  {text : String}

theorem RunsOn.source (h : RunsOn fs stdin options config text) :
    ∃ source, inputSource fs stdin options config = .ok source ∧ source.Reliable ∧
      source.chars = (Source.ofString text).chars := by
  have hinput := h.input
  unfold inputSource
  cases hfile : options.inputFile? with
  | none =>
      rw [hfile] at hinput
      obtain ⟨hreliable, hbytes⟩ := hinput
      rw [Utf8.toList_toUTF8] at hbytes
      refine ⟨.ofDeliveries config.bufferSize stdin, rfl, hreliable, ?_⟩
      rw [Source.chars_ofDeliveries config.bufferSize hreliable hbytes, Source.chars_ofString]
  | some name =>
      rw [hfile] at hinput
      exact ⟨.ofString text, by simp only [hinput], trivial, rfl⟩

/-- The document of a run is its text, if that comes from a file. -/
theorem RunsOn.document? (h : RunsOn fs stdin options config text) :
    document? fs options = options.inputFile?.map fun name => .ofFile (.ofString name) text := by
  have hinput := h.input
  unfold CommandLine.document?
  cases hfile : options.inputFile? with
  | none => rfl
  | some name =>
      rw [hfile] at hinput
      simp only [Option.bind_some, hinput, Except.toOption, Option.map_some]

/-- A run goes by the tokens of its text that it does not pass over, from whatever source. -/
theorem RunsOn.examine (h : RunsOn fs stdin options config text) :
    examine fs stdin options =
      match (ofString text).tokenize with
      | .error e => .error e.message
      | .ok found => .ok (config, kept (passesOver options config) found) := by
  obtain ⟨source, hsource, hreliable, hchars⟩ := h.source
  have hcollect : collectTokens options config source =
      (ofString text).tokenize.map (kept (passesOver options config)) := by
    rw [← collect_eq]
    exact collect_of_chars hreliable (Source.reliable_ofString text) hchars _
  rw [CommandLine.examine, h.config]
  simp only [Except.mapError, bind, Except.bind, hsource, hcollect]
  cases (ofString text).tokenize <;> rfl

theorem RunsOn.report?_eq (h : RunsOn fs stdin options config text) :
    report? fs stdin options =
      match (ofString text).tokenize with
      | .error _ => none
      | .ok found => some (config.malformed.report (told (passesOver options config) found)) := by
  rw [report?, h.examine]
  cases (ofString text).tokenize with
  | error e => rfl
  | ok found => simp only [report_kept]

end

/-- The report about a text and the exit code depend on the text, on the policy and on whether the
run passes over insignificant tokens, which matters for unterminated comments alone: they are
reported exactly by the runs that keep insignificant tokens. -/
theorem report_of_text {text : String} {fs fs' : FileSystem} {stdin stdin' : List Delivery}
    {options options' : Options} {config config' : Config}
    (h : RunsOn fs stdin options config text) (h' : RunsOn fs' stdin' options' config' text)
    (hpolicy : config.malformed = config'.malformed) (wording wording' : Wording) :
    match (ofString text).tokenize with
    | .error _ =>
      report? fs stdin options = none ∧ report? fs' stdin' options' = none ∧
        (execute fs stdin options wording).exitCode = 1 ∧
        (execute fs' stdin' options' wording').exitCode = 1
    | .ok found =>
      report? fs stdin options =
          some (config.malformed.report (told (passesOver options config) found)) ∧
        (execute fs stdin options wording).errors =
          complaints wording options
            (options.inputFile?.map fun name => .ofFile (.ofString name) text)
            (config.malformed.report (told (passesOver options config) found)) ∧
        ((execute fs stdin options wording).exitCode =
          if config.malformed = .error ∧
              ∃ token ∈ found, token.kind.isMalformed = true ∧
                (passesOver options config = true → token.kind ≠ .badComment)
          then 1 else 0) ∧
        (report? fs stdin options = report? fs' stdin' options' ↔
          passesOver options config = passesOver options' config' ∨
            config.malformed = .ignore ∨ ∀ token ∈ found, token.kind ≠ .badComment) := by
  have hreport := h.report?_eq
  have hreport' := h'.report?_eq
  have hexit := execute_of_report? fs stdin options wording
  have hexit' := execute_of_report? fs' stdin' options' wording'
  cases htokenize : (ofString text).tokenize with
  | error e =>
      rw [htokenize] at hreport hreport'
      rw [hreport] at hexit
      rw [hreport'] at hexit'
      exact ⟨hreport, hreport', hexit, hexit'⟩
  | ok found =>
      rw [htokenize] at hreport hreport'
      rw [hreport] at hexit
      rw [h.document?] at hexit
      refine ⟨hreport, hexit.1, ?_, ?_⟩
      · simp only [hexit.2, hasErrors_told]
      · rw [hreport, hreport', Option.some_inj, ← hpolicy]
        exact report_told_eq_iff _ _ _ found

/-- A machine without files. -/
def noFiles : FileSystem := { root := .directory [], current := [] }

/-- The root is not configured without a file there. -/
theorem find?_root {entries : List (String × FileTree)}
    (h : entries.lookup Config.fileName = none) :
    Config.find? { root := .directory entries, current := [] } (.ofNames []) = none := by
  have hancestors : Path.ancestors (.ofNames []) = [⟨["", ""]⟩] := by decide
  have hrender : Path.render (Path.join ⟨["", ""]⟩ Config.fileName) = "/Stylescan.toml" := by
    decide
  have hnames : Path.names (Path.join ⟨["", ""]⟩ Config.fileName) = [Config.fileName] := by decide
  have hstep : FileSystem.step { root := .directory entries, current := [] } [] Config.fileName =
      .error .notFound := by
    simp only [FileSystem.step, FileTree.node?, h]
    rw [if_neg (by decide), if_neg (by decide)]
    rfl
  have hfile : FileSystem.isFile { root := .directory entries, current := [] }
      (Path.join ⟨["", ""]⟩ Config.fileName) = false := by
    simp only [FileSystem.isFile, FileSystem.resolve, hrender]
    rw [if_neg (by decide), if_neg (by decide), if_neg (by decide)]
    simp [FileSystem.follow, hnames, hstep, bind, Except.bind]
  rw [Config.find?, hancestors, List.map_singleton, List.find?_singleton, hfile]
  rfl

theorem find?_noFiles : Config.find? noFiles (.ofNames noFiles.current) = none := find?_root rfl

/-- A standard input with a comment that is not closed. -/
def openComment : List Delivery := [.bytes [0x2F, 0x2A]]

theorem holds_openComment (all : Bool) :
    RunsOn noFiles openComment { check := true, all } {} "/*" where
  config := by
    change Config.resolve noFiles none none = _
    unfold Config.resolve Config.loadFrom
    dsimp only
    rw [find?_noFiles]
  input := by
    refine ⟨by simp [ByteReader.Reliable, openComment], ?_⟩
    rw [Utf8.toList_toUTF8]
    decide

/-- The tokens of a comment that is not closed. -/
def openCommentTokens : List Token :=
  [⟨.ofText .badComment [], ⟨0, 2⟩, 1⟩, ⟨{ kind := .eof }, ⟨2, 2⟩, 1⟩]

theorem tokenize_openComment : (ofString "/*").tokenize = .ok openCommentTokens := by
  have hcountable : Countable (normalize "/*".toList) := by cbv
  rw [tokenize_text, if_pos hcountable]
  cbv

/-- A comment that is not closed passes a check unless insignificant tokens are kept. -/
theorem report_of_text_of_openComment :
    report? noFiles openComment { check := true } = some {} ∧
      (execute noFiles openComment { check := true } {}).exitCode = 0 ∧
      (report? noFiles openComment { check := true, all := true }).map Report.size = some 1 ∧
      (execute noFiles openComment { check := true, all := true } {}).exitCode = 1 := by
  have hdefault := report_of_text (holds_openComment false) (holds_openComment true) rfl {} {}
  have hall := report_of_text (holds_openComment true) (holds_openComment false) rfl {} {}
  rw [tokenize_openComment] at hdefault hall
  refine ⟨hdefault.1.trans ?_, hdefault.2.2.1.trans ?_, ?_, hall.2.2.1.trans ?_⟩
  · rfl
  · rfl
  · rw [hall.1]
    rfl
  · rfl

end CommandLine
end CssLex
