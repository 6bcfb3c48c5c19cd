import CssLex.Proofs.Serialize.Plain
import CssLex.Proofs.Tokenizer.Tokens

/-! What is written for a name reads back in front of any text that does not go on with it, and
what is written for a string in front of any text. -/

namespace CssLex

open Grammar

namespace Tokenizer

/-- A text that is read as one lexeme in front of another text gives the first token. -/
theorem tokenize_front {front rest : List Char} {l : Lexeme} (hne : front ≠ [])
    (hbreak : front.head? ≠ some '\n') (hplain : Preprocessed front)
    (hlength : (front ++ rest).length ≤ characterLimit)
    (hlexeme : lexeme (front ++ normalize rest) = (l, normalize rest)) :
    ∃ more, (ofString (String.ofList (front ++ rest))).tokenize =
      .ok (⟨l, ⟨0, front.length⟩, 1⟩ :: more) := by
  have hshort := normalize_length_le rest
  have hcountable : Countable (front ++ normalize rest) := by
    apply countable_of_head
    · obtain ⟨c, more, rfl⟩ := List.exists_cons_of_ne_nil hne
      exact hbreak
    · rw [List.length_append] at hlength ⊢
      omega
  have htoken : token 0 1 (front ++ normalize rest) = ⟨l, ⟨0, front.length⟩, 1⟩ := by
    rw [token, hlexeme, List.length_append, Nat.add_sub_cancel, Nat.zero_add]
  have htokens := @tokens_cons 0 1 (front ++ normalize rest) (by simp [hne])
  rw [htoken] at htokens
  rw [tokenize_text, String.toList_ofList, hplain.normalize_append, if_pos hcountable, htokens]
  exact ⟨_, rfl⟩

end Tokenizer

namespace Serialize

open Scanner

/-- A text that does not go on with a name: it is empty, or preprocessing makes no character of a
name of its first one, which is no backslash either. -/
def EndsName (rest : List Char) : Prop :=
  ∀ c, rest.head? = some c → isNameChar (preprocess c) = false ∧ c ≠ '\\'

theorem endsName_cons {c : Char} {rest : List Char} :
    EndsName (c :: rest) ↔ isNameChar (preprocess c) = false ∧ c ≠ '\\' := by
  simp [EndsName]

/-- Only line ends and replacements come about by preprocessing. -/
theorem eq_of_preprocess {c d : Char} (h : preprocess c = d) (hd : d ≠ '\n' ∧ d ≠ replacement) :
    c = d := by
  unfold preprocess at h
  split at h
  · exact absurd h.symm hd.1
  · split at h
    · exact absurd h.symm hd.2
    · exact h

theorem head?_normalize_ne {rest : List Char} {d : Char} (hd : d ≠ '\n' ∧ d ≠ replacement)
    (h : rest.head? ≠ some d) : (normalize rest).head? ≠ some d := by
  cases rest with
  | nil => simp [normalize]
  | cons c rest =>
      rw [normalize_cons]
      intro heq
      exact h (congrArg some (eq_of_preprocess (Option.some.inj heq) hd))

theorem EndsName.unit? {rest : List Char} (h : EndsName rest) :
    Grammar.unit? isNameChar (normalize rest) = none := by
  cases rest with
  | nil => rfl
  | cons c rest =>
      obtain ⟨hname, hbackslash⟩ := endsName_cons.mp h
      rw [normalize_cons]
      exact unit?_of_not_accept hname fun heq => hbackslash (eq_of_preprocess heq (by decide))

/-- An identifier reads back in front of a text that neither goes on with the name nor opens its
arguments, and a keyword in front of a text that does not go on with the name. -/
theorem identifier_in_context {name rest : List Char} (hname : name ≠ []) (hrest : EndsName rest) :
    (rest.head? ≠ some '(' → (identifier name ++ rest).length ≤ characterLimit →
      ∃ more, (Tokenizer.ofString (String.ofList (identifier name ++ rest))).tokenize =
        .ok (⟨.ofText .ident name, ⟨0, (identifier name).length⟩, 1⟩ :: more)) ∧
      (('@' :: identifier name ++ rest).length ≤ characterLimit →
        ∃ more, (Tokenizer.ofString (String.ofList ('@' :: identifier name ++ rest))).tokenize =
          .ok (⟨.ofText .atKeyword name, ⟨0, 1 + (identifier name).length⟩, 1⟩ :: more)) := by
  have hstop := hrest.unit?
  obtain ⟨d, more, hhead, hd⟩ := identifier_head hname
  constructor
  · intro hopen hlength
    refine Tokenizer.tokenize_front (by simp [hhead]) ?_ (preprocessed_identifier name) hlength ?_
    · rw [hhead]
      simpa using hd.ne (by decide)
    · rw [lexeme_identifier hname hstop]
      exact identLike_of_head (head?_normalize_ne (by decide) hopen)
  · intro hlength
    rw [Nat.add_comm]
    refine Tokenizer.tokenize_front (by simp) (by simp) ?_ hlength ?_
    · exact List.forall_mem_cons.mpr ⟨rfl, preprocessed_identifier name⟩
    · have hread := lexeme_atKeyword hname hstop
      rwa [Lexeme.css_atKeyword] at hread

/-- The name `-->` before the end of a line, and the name `-1` before a parenthesis, whose escape
ends in a blank of its own. -/
theorem identifier_in_context_of_hyphens :
    (∃ more, (Tokenizer.ofString "--\\>\r\n").tokenize =
        .ok (⟨.ofText .ident ['-', '-', '>'], ⟨0, 4⟩, 1⟩ :: more)) ∧
      ∃ more, (Tokenizer.ofString "@-\\31 (").tokenize =
        .ok (⟨.ofText .atKeyword ['-', '1'], ⟨0, 6⟩, 1⟩ :: more) :=
  have hbreak : EndsName ['\r', '\n'] := endsName_cons.mpr (by decide)
  have hopen : EndsName ['('] := endsName_cons.mpr (by decide)
  have hcdc : (['-', '-', '>'] : List Char) ≠ [] := by simp
  have hnumber : (['-', '1'] : List Char) ≠ [] := by simp
  ⟨(identifier_in_context hcdc hbreak).1 (by simp) (by decide),
    (identifier_in_context hnumber hopen).2 (by decide)⟩

/-- A string reads back in front of any text, and a hash in front of a text that does not go on
with its name. -/
theorem string_and_hash_in_context (value rest : List Char) :
    ((string value ++ rest).length ≤ characterLimit →
      ∃ more, (Tokenizer.ofString (String.ofList (string value ++ rest))).tokenize =
        .ok (⟨.ofText .string value, ⟨0, (string value).length⟩, 1⟩ :: more)) ∧
      (value ≠ [] → EndsName rest → ('#' :: name value ++ rest).length ≤ characterLimit →
        ∃ more, (Tokenizer.ofString (String.ofList ('#' :: name value ++ rest))).tokenize =
          .ok (⟨.ofText .hash value, ⟨0, 1 + (name value).length⟩, 1⟩ :: more)) := by
  constructor
  · intro hlength
    have hwritten : string value = '"' :: (value.flatMap stringChar ++ ['"']) := rfl
    rw [hwritten] at hlength ⊢
    refine Tokenizer.tokenize_front (by simp) (by simp) ?_ hlength ?_
    · exact Lexeme.css_string value ▸ (preprocessed_css_string value).1
    · rw [List.cons_append, List.append_assoc]
      exact lexeme_quote (.inl rfl) (stringRun_string value)
  · intro hvalue hrest hlength
    have hread := lexeme_hash hvalue hrest.unit?
    rw [Lexeme.css_hash] at hread
    rw [Nat.add_comm]
    refine Tokenizer.tokenize_front (by simp) (by simp) ?_ hlength hread
    exact List.forall_mem_cons.mpr ⟨rfl, preprocessed_of_not_isControl fun _ => name_plain⟩

/-- A quotation mark and a line feed before a hexadecimal digit in a string that another one
follows, and a NUL at the end of a name before a line end. -/
theorem string_and_hash_in_context_of_controls :
    (∃ more, (Tokenizer.ofString "\"\\\"\\a b\"\"").tokenize =
        .ok (⟨.ofText .string ['"', '\n', 'b'], ⟨0, 8⟩, 1⟩ :: more)) ∧
      ∃ more, (Tokenizer.ofString "#1\\0 \r\n").tokenize =
        .ok (⟨.ofText .hash ['1', '\x00'], ⟨0, 5⟩, 1⟩ :: more) :=
  have hbreak : EndsName ['\r', '\n'] := endsName_cons.mpr (by decide)
  ⟨(string_and_hash_in_context ['"', '\n', 'b'] ['"']).1 (by decide),
    (string_and_hash_in_context ['1', '\x00'] ['\r', '\n']).2 (by simp) hbreak (by decide)⟩

end Serialize
end CssLex
