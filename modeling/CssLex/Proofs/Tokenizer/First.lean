import CssLex.Proofs.Grammar.Url
import CssLex.Proofs.Token.Shape
import CssLex.Proofs.Tokenizer.Tiling

/-! The first token of a text, where that starts with a comment, a string or a url: whether it is
closed, what it says and where it ends. -/

namespace CssLex

open Grammar

/-! ## First tokens -/

/-- A token starts a text, whether it is asked for alone or with all others. It fails to do so only
if the text is too long to be counted. -/
structure Tokenizer.Begins (text : String) (t : Token) : Prop where
  fetched : match (ofString text).fetch with
    | .ok found _ => found = t
    | .error e _ => e = .tooLong ∧ ¬ Countable (normalize text.toList)
  listed : match (ofString text).tokenize with
    | .ok found => found.head? = some t
    | .error e => e = .tooLong ∧ ¬ Countable (normalize text.toList)

/-- The span from the start of a text to where `left` is left of it. -/
def Span.upTo (text left : List Char) : Span := ⟨0, text.length - left.length⟩

theorem Span.upTo_append (front left : List Char) :
    Span.upTo (front ++ left) left = ⟨0, front.length⟩ := by
  rw [Span.upTo, List.length_append, Nat.add_sub_cancel]

namespace Tokenizer

variable {text : String} {whole front left : List Char} {l : Lexeme}

/-- The first lexeme of a preprocessed text is what its first token says. -/
theorem begins_of_lexeme (htext : normalize text.toList = whole) (h : lexeme whole = (l, left)) :
    Begins text ⟨l, .upTo whole left, 1⟩ := by
  have hreliable := Source.reliable_ofString text
  have hunread : ({ source := .ofString text } : Scanner).unread = normalize text.toList := by
    rw [Scanner.unread_start hreliable, Source.chars_ofString]
  have htoken : token 0 1 (normalize text.toList) = ⟨l, .upTo whole left, 1⟩ := by
    rw [token, htext, h, Nat.zero_add]
    rfl
  constructor
  case fetched =>
    have hscan := scanToken_of_sound (t := ofString text) (Scanner.sound_start hreliable)
    rw [fetch_of_not_replaying rfl]
    cases hresult : (ofString text).scanToken with
    | ok found t' =>
        rw [hresult] at hscan
        exact hscan.1.trans ((congrArg (token 0 1) hunread).trans htoken)
    | error e t' =>
        rw [hresult] at hscan
        refine ⟨hscan.1, fun hcountable => hscan.2 ?_⟩
        apply (fits_iff_countable hreliable).mpr
        rwa [Source.chars_ofString]
  case listed =>
    rw [tokenize_text]
    split
    · next found heq =>
      split at heq
      · cases heq
        rw [List.head?_eq_getElem?, tokens_head, htoken]
      · cases heq
    · next e heq =>
      split at heq
      · cases heq
      · next hlong =>
        cases heq
        exact ⟨rfl, hlong⟩

theorem begins_of_front (htext : normalize text.toList = front ++ left)
    (h : lexeme (front ++ left) = (l, left)) : Begins text ⟨l, ⟨0, front.length⟩, 1⟩ := by
  rw [← Span.upTo_append front left]
  exact begins_of_lexeme htext h

end Tokenizer

/-! ## Comments -/

/-- The first place where a mark stands in a text, with what stands before and behind it. -/
structure FirstMark (mark text before after : List Char) : Prop where
  append : before ++ mark ++ after = text
  first : ∀ earlier later, earlier ++ mark ++ later = text → before.length ≤ earlier.length

namespace Grammar

theorem commentRun_firstMark {text : List Char} (h : (commentRun text).1.2 = true) :
    FirstMark ['*', '/'] text (commentRun text).1.1 (commentRun text).2 := by
  constructor
  case append =>
    rw [List.append_assoc]
    exact (commentRun_closed h).symm
  case first =>
    intro earlier later hmark
    fun_induction commentRun text generalizing earlier with
    | case1 => cases h
    | case2 text => exact Nat.zero_le _
    | case3 c text hopen run ih =>
        cases earlier with
        | nil =>
            -- a mark in front would have ended the comment here
            obtain ⟨rfl, htext⟩ := List.cons.inj hmark
            exact absurd htext.symm (hopen later rfl)
        | cons d earlier => exact Nat.succ_le_succ (ih h earlier (List.cons.inj hmark).2)

end Grammar

namespace Tokenizer

/-- A comment ends at the first mark that closes it, and one without such a mark is all the rest of
the text. -/
theorem comment_to_mark {text : String} {rest : List Char}
    (htext : text.toList = '/' :: '*' :: rest) :
    if ['*', '/'] <:+: normalize rest then
      ∃ before after, FirstMark ['*', '/'] (normalize rest) before after ∧
        Begins text ⟨.ofText .comment before, ⟨0, before.length + 4⟩, 1⟩
    else
      Begins text ⟨.ofText .badComment (normalize rest), ⟨0, (normalize rest).length + 2⟩, 1⟩ := by
  have hnormal : normalize text.toList = '/' :: '*' :: normalize rest := by rw [htext]; rfl
  obtain ⟨⟨⟨inside, closed⟩, left⟩, hrun⟩ : ∃ run, commentRun (normalize rest) = run := ⟨_, rfl⟩
  have hlexeme := lexeme_slash hrun
  cases closed with
  | true =>
      have hfirst := commentRun_firstMark (by rw [hrun] : (commentRun (normalize rest)).1.2 = true)
      rw [hrun] at hfirst
      rw [if_pos ⟨inside, left, hfirst.append⟩]
      refine ⟨inside, left, hfirst, ?_⟩
      have hwhole : '/' :: '*' :: normalize rest =
          ('/' :: '*' :: (inside ++ ['*', '/'])) ++ left := by
        rw [List.cons_append, List.cons_append, hfirst.append]
      rw [hwhole] at hnormal hlexeme
      simpa using begins_of_front hnormal hlexeme
  | false =>
      have hopen := commentRun_open (by rw [hrun] : (commentRun (normalize rest)).1.2 = false)
      have hnone := commentRun_no_mark (normalize rest)
      rw [hopen] at hnone
      rw [if_neg hnone]
      rw [hrun] at hopen
      cases hopen
      exact begins_of_lexeme hnormal hlexeme

/-- The stars of a comment and the one of its mark. -/
theorem comment_to_mark_of_stars :
    "/***/ */".toList = '/' :: '*' :: "**/ */".toList ∧
      Begins "/***/ */" ⟨.ofText .comment ['*'], ⟨0, 5⟩, 1⟩ := by
  have htext : "/***/ */".toList = '/' :: '*' :: "**/ */".toList := rfl
  have hbegins := comment_to_mark htext
  rw [if_pos (by decide)] at hbegins
  obtain ⟨before, after, hfirst, hbegins⟩ := hbegins
  have hlength := hfirst.first ['*'] " */".toList rfl
  obtain rfl : before = ['*'] := by
    have happend := hfirst.append
    match before with
    | [] => cases happend
    | [c] =>
        cases happend
        rfl
    | c :: d :: more => simp at hlength
  exact ⟨htext, hbegins⟩

/-! ## Strings -/

/-- What stands behind an opening quote splits into pieces in one way. The first of them that can
end the string tells whether it is the quote that closes it, and the pieces before are its text. -/
theorem string_to_quote {text : String} {quote : Char} {rest : List Char}
    (hquote : quote = '"' ∨ quote = '\'') (htext : text.toList = quote :: rest) :
    ∃ pieces, (∀ others, Pieces (normalize rest) others [] ↔ others = pieces) ∧
      let inside := pieces.takeWhile (!·.ends quote)
      let width := (inside.flatMap (·.spelling)).length
      Begins text
        (if pieces.find? (·.ends quote) = some (.bare quote) then
          ⟨.ofText .string (inside.map (·.value)), ⟨0, width + 2⟩, 1⟩
        else ⟨.ofText .badString (inside.map (·.value)), ⟨0, width + 1⟩, 1⟩) := by
  have hnormal : normalize text.toList = quote :: normalize rest := by
    rw [htext]
    rcases hquote with rfl | rfl
    · rfl
    · rfl
  obtain ⟨pieces, hpieces⟩ := exists_pieces (normalize rest)
  refine ⟨pieces, fun others => ⟨hpieces.unique, fun hothers => hothers ▸ hpieces⟩, ?_⟩
  obtain ⟨left, hinside, hleft⟩ := hpieces.up_to_end quote
  have hspelled := hinside.spelled
  have hpart := hinside.stringPart
  intro inside width
  split
  · next hfind =>
    rw [if_pos hfind] at hleft
    obtain ⟨left, rfl⟩ := List.head?_eq_some_iff.mp hleft
    have hlexeme := lexeme_quote hquote (hpart.closed hquote)
    have hwhole : quote :: normalize rest =
        (quote :: (inside.flatMap (·.spelling) ++ [quote])) ++ left := by
      rw [List.cons_append, List.append_assoc]
      exact congrArg (quote :: ·) hspelled.symm
    have hwidth : (quote :: (inside.flatMap (·.spelling) ++ [quote])).length = width + 2 := by
      rw [List.length_cons, List.length_append, List.length_singleton]
    rw [hwhole] at hnormal hlexeme
    have hbegins := begins_of_front hnormal hlexeme
    rwa [hwidth] at hbegins
  · next hfind =>
    rw [if_neg hfind] at hleft
    have hlexeme := lexeme_quote hquote (hpart.broken hleft)
    rw [← hspelled, ← List.cons_append] at hnormal hlexeme
    exact begins_of_front hnormal hlexeme

/-- An escape with the line feed that ends it, a continued line and an escaped quote. -/
theorem string_to_quote_of_lines :
    ('\'' = '"' ∨ '\'' = '\'') ∧
      "'\\41\nb\\\r\n\\'c'd'".toList = '\'' :: "\\41\nb\\\r\n\\'c'd'".toList ∧
      Begins "'\\41\nb\\\r\n\\'c'd'" ⟨.ofText .string "Ab\n'c".toList, ⟨0, 12⟩, 1⟩ := by
  have htext : "'\\41\nb\\\r\n\\'c'd'".toList = '\'' :: "\\41\nb\\\r\n\\'c'd'".toList := rfl
  obtain ⟨pieces, hunique, hbegins⟩ := string_to_quote (.inr rfl) htext
  have hquoted : Escapes "\\'c'd'".toList '\'' "c'd'".toList := escape?_iff.mp rfl
  have hletter : Escapes "\\41\nb\\\n\\'c'd'".toList 'A' "b\\\n\\'c'd'".toList :=
    escape?_iff.mp rfl
  have hplain : Pieces "c'd'".toList [.bare 'c', .bare '\'', .bare 'd', .bare '\''] [] :=
    .bare (by decide) (.bare (by decide) (.bare (by decide) (.bare (by decide) (.stop []))))
  have hbehind := (hplain.escape "\\'".toList hquoted).continuation
  have hpieces := (hbehind.bare (by decide : 'b' = '\\' → _)).escape "\\41\n".toList hletter
  cases (hunique _).mp hpieces
  exact ⟨.inr rfl, htext, hbegins⟩

/-! ## Urls -/

/-- Behind the name of a url and a parenthesis stands the inside of the url. A parenthesis behind it
closes the url, and without one nothing is taken that could not be a part of a closed url. -/
theorem url_to_parenthesis {name rest : List Char}
    (hname : Run isNameChar (normalize text.toList) name ('(' :: rest))
    (hurl : name.map lowerLetter = ['u', 'r', 'l']) :
    (∀ body left, UrlInside rest body (')' :: left) →
      Begins text ⟨.ofText .url body, .upTo (normalize text.toList) left, 1⟩) ∧
    ((∀ body left, ¬ UrlInside rest body (')' :: left)) →
      ∃ body left, UrlBroken rest body left ∧
        Begins text ⟨.ofText .badUrl body, .upTo (normalize text.toList) left, 1⟩ ∧
        ((∀ c ∈ (rest.dropWhile isBlank).head?, c ≠ '"' ∧ c ≠ '\'') →
          ∃ pieces, Pieces rest pieces left ∧ ∀ piece ∈ pieces, piece.Harmless)) := by
  have hbegins := begins_of_lexeme rfl (lexeme_of_urlName hname hurl)
  constructor
  · intro body left hinside
    rw [hinside.closes] at hbegins
    exact hbegins
  · intro hnone
    have hpart := urlBody_part rest
    cases hclosed : (urlBody rest).1.closed with
    | true =>
        rw [if_pos hclosed] at hpart
        exact absurd hpart (hnone _ _)
    | false =>
        have hbroken := urlBody_broken hclosed
        refine ⟨_, _, hbroken, ?_, hbroken.pieces⟩
        rw [Production.ofBody, if_neg (by simp [hclosed])] at hbegins
        exact hbegins

/-- A name in three spellings, and a string over two lines with white space around it. -/
theorem url_to_parenthesis_of_spellings :
    Run isNameChar (normalize "\\75 R\\6c( 'a\\\nb' )x".toList) "uRl".toList
        ('(' :: " 'a\\\nb' )x".toList) ∧
      "uRl".toList.map lowerLetter = ['u', 'r', 'l'] ∧
      UrlInside " 'a\\\nb' )x".toList "a\nb".toList ")x".toList ∧
      Begins "\\75 R\\6c( 'a\\\nb' )x" ⟨.ofText .url "a\nb".toList, ⟨0, 18⟩, 1⟩ := by
  have hname : Run isNameChar (normalize "\\75 R\\6c( 'a\\\nb' )x".toList) "uRl".toList
      ('(' :: " 'a\\\nb' )x".toList) :=
    .escape (escape?_iff.mp rfl) (.char rfl (.escape (escape?_iff.mp rfl) (.stop _)))
  have hinside : UrlInside " 'a\\\nb' )x".toList "a\nb".toList ")x".toList := by
    have hpieces : Pieces "a\\\nb' )x".toList [.bare 'a', .continuation, .bare 'b'] "' )x".toList :=
      .bare (by decide) (.continuation (.bare (by decide) (.stop _)))
    have hblank : ∀ c ∈ [' '], isBlank c = true := List.forall_mem_singleton.mpr rfl
    have hopen : ∀ piece ∈ [.bare 'a', .continuation, .bare 'b'],
        Piece.ends '\'' piece = false := by simp [Piece.ends]
    have hstring := UrlString.behind hblank (.inr rfl) (.pieces hpieces hopen)
    exact @UrlInside.string _ _ [' '] _ _ hstring hblank
  have hurl : "uRl".toList.map lowerLetter = ['u', 'r', 'l'] := by decide
  exact ⟨hname, hurl, hinside, (url_to_parenthesis hname hurl).1 _ _ hinside⟩

end Tokenizer
end CssLex
