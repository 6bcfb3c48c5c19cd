import CssLex.Proofs.CommandLine.Report
import CssLex.Proofs.Token.Json
import CssLex.Proofs.Tokenizer.Boundary
import CssLex.Proofs.Tokenizer.Shape

/-! What a run lists of its tokens. Each token has a line of its own, and a line of JSON tells the
token. -/

namespace CssLex

/-! ## Lines -/

theorem TokenKind.unbroken_name (kind : TokenKind) : Unbroken kind.name.toList := by
  cases kind with
  | delim c => exact (show Unbroken "Delim".toList by decide)
  | _ => decide

theorem TokenKind.unbroken_render (kind : TokenKind) : Unbroken kind.render.toList := by
  have hquote (c : Char) : Unbroken (visibleQuoted '\'' [c]) :=
    unbroken_visibleQuoted (by decide) [c]
  cases kind with
  | delim c => simp [render, hquote]
  | _ => exact unbroken_name _

theorem Lexeme.unbroken_render (l : Lexeme) : Unbroken l.render.toList := by
  have hquote (text : String) : Unbroken (visibleQuoted '"' text.toList) :=
    unbroken_visibleQuoted (by decide) _
  have hnumber (number : Number) : Unbroken number.render.toList := number.scalar_render.unbroken
  obtain ⟨kind, text, number, literal⟩ := l
  unfold render
  cases number <;> cases text <;> simp [hquote, hnumber, kind.unbroken_render]

theorem Token.unbroken_renderJson (token : Token) : Unbroken token.renderJson.toList :=
  (Json.Value.object token.jsonFields_value).unbroken

namespace CommandLine

open Tokenizer

theorem unbroken_textLine (token : Token) : Unbroken (textLine token).toList := by
  have hblanks (n : Nat) : Unbroken (List.replicate n ' ') := unbroken_replicate (by decide) n
  have hnat (n : Nat) : Unbroken (Nat.toDigits 10 n) := by
    simpa using (scalar_nat n).unbroken
  simp [textLine, padLeft, padRight, Span.render, hblanks, hnat, token.unbroken_render]

/-- How a token is written on a line of its own; source text has no such lines. -/
def lineOf? : OutputFormat → Option (Token → String)
  | .text => some textLine
  | .json => some Token.renderJson
  | .css => none

section

variable {format : OutputFormat} {line : Token → String}

theorem lineOf?_eq_some (h : lineOf? format = some line) :
    format = .text ∧ line = textLine ∨ format = .json ∧ line = Token.renderJson := by
  cases format with
  | text => exact .inl ⟨rfl, (Option.some.inj h).symm⟩
  | json => exact .inr ⟨rfl, (Option.some.inj h).symm⟩
  | css => cases h

theorem unbroken_line (h : lineOf? format = some line) (token : Token) :
    Unbroken (line token).toList := by
  rcases lineOf?_eq_some h with ⟨rfl, rfl⟩ | ⟨rfl, rfl⟩
  · exact unbroken_textLine token
  · exact token.unbroken_renderJson

theorem toList_emit (h : lineOf? format = some line) (tokens : List Token) :
    (emit format tokens).toList = tokens.flatMap fun token => (line token).toList ++ ['\n'] := by
  have hjoin : emit format tokens = String.join (tokens.map fun token => line token ++ "\n") := by
    rcases lineOf?_eq_some h with ⟨rfl, rfl⟩ | ⟨rfl, rfl⟩ <;> rfl
  simp [hjoin, String.toList_join, List.flatMap_map]

/-- What is written of the tokens splits into a line for each. -/
theorem splitOn_emit (h : lineOf? format = some line) (tokens : List Token) :
    (emit format tokens).toList.splitOn '\n' =
      tokens.map (fun token => (line token).toList) ++ [[]] := by
  rw [toList_emit h]
  induction tokens with
  | nil => rfl
  | cons token tokens ih =>
      rw [List.flatMap_cons, List.append_assoc, List.singleton_append,
        List.splitOn_append_cons_self_of_not_mem (unbroken_line h token).1, ih, List.map_cons,
        List.cons_append]

theorem not_mem_emit (h : lineOf? format = some line) (tokens : List Token) :
    '\r' ∉ (emit format tokens).toList := by
  rw [toList_emit h]
  intro hmem
  obtain ⟨token, -, hmem⟩ := List.mem_flatMap.mp hmem
  rcases List.mem_append.mp hmem with hmem | hmem
  · exact (unbroken_line h token).2 hmem
  · simp at hmem

end

/-- Tokens from any two sources that are the same in JSON are the same. -/
theorem Given.eq_of_renderJson {source source' : Source} {token token' : Token}
    (h : Given source token) (h' : Given source' token')
    (heq : token.renderJson = token'.renderJson) : token = token' :=
  Token.renderJson_inj (h.holds fun text _ => Grammar.valued_lexeme text)
    (h'.holds fun text _ => Grammar.valued_lexeme text) heq

/-- Listings are framed and faithful: a token is written on one line, a run that writes tokens
writes a line for each, and tokens that are the same in JSON are the same. -/
theorem listing_faithful :
    (∀ token : Token, Unbroken token.render.toList ∧ Unbroken token.renderJson.toList) ∧
    (∀ (fs : FileSystem) (stdin : List Delivery) (options : Options) (wording : Wording)
        (config : Config) (tokens : List Token) (line : Token → String),
      examine fs stdin options = .ok (config, tokens) → options.check = false →
      lineOf? (options.format.getD config.format) = some line →
      (execute fs stdin options wording).output.toList.splitOn '\n' =
          tokens.map (fun token => (line token).toList) ++ [[]] ∧
        '\r' ∉ (execute fs stdin options wording).output.toList) ∧
    ∀ (source source' : Source) (token token' : Token), Given source token →
      Given source' token' → token.renderJson = token'.renderJson → token = token' := by
  refine ⟨fun token => ⟨token.unbroken_render, token.unbroken_renderJson⟩, ?_,
    fun _ _ _ _ => Given.eq_of_renderJson⟩
  intro fs stdin options wording config tokens line hexamine hcheck hline
  have houtput : (execute fs stdin options wording).output =
      emit (options.format.getD config.format) tokens := by
    rw [execute_eq, hexamine]
    simp [finish, hcheck]
  rw [houtput]
  exact ⟨splitOn_emit hline tokens, not_mem_emit hline tokens⟩

/-- Asks for all tokens in JSON. -/
def allInJson : Options := { all := true, format := some .json }

theorem examine_openComment :
    examine noFiles openComment allInJson = .ok ({}, openCommentTokens) := by
  have hruns : RunsOn noFiles openComment allInJson {} "/*" :=
    ⟨(holds_openComment true).config, (holds_openComment true).input⟩
  rw [hruns.examine, tokenize_openComment]
  rfl

/-- The tokens of a name. -/
def letterTokens : List Token := [⟨.ofText .ident ['a'], ⟨0, 1⟩, 1⟩, Token.atEnd 1 1]

theorem tokenize_letter : (ofString "a").tokenize = .ok letterTokens := by
  have hcountable : Countable (normalize "a".toList) := by cbv
  rw [tokenize_text, if_pos hcountable]
  cbv

/-- Two tokens have two lines, and the first tokens of two texts are the same as their lines
are. -/
theorem listing_faithful_of_openComment :
    (execute noFiles openComment allInJson {}).output.toList.splitOn '\n' =
        openCommentTokens.map (fun token => token.renderJson.toList) ++ [[]] ∧
      breakTokens.head? = letterTokens.head? := by
  have hlines := listing_faithful.2.1 noFiles openComment allInJson {} {} openCommentTokens
    Token.renderJson examine_openComment rfl rfl
  have hbreak : Given (.ofString "a\r\n/*b") ⟨.ofText .ident ['a'], ⟨0, 1⟩, 1⟩ :=
    @Given.listed _ [] _ _ _ tokenize_break List.mem_cons_self
  have hletter : Given (.ofString "a") ⟨.ofText .ident ['a'], ⟨0, 1⟩, 1⟩ :=
    @Given.listed _ [] _ _ _ tokenize_letter List.mem_cons_self
  have hsame := listing_faithful.2.2 _ _ _ _ hbreak hletter rfl
  exact ⟨hlines.1, congrArg some hsame⟩

end CommandLine
end CssLex
