import CssLex.Proofs.Grammar.Quoted

/-! How urls are spelled. Behind the parenthesis stands a string or a run of url characters and
escapes, with white space around it. A url that is not closed is read as far as it goes like one. -/

namespace CssLex.Grammar

open Production

variable {text blanks body left : List Char} {quote c : Char}

/-! ## What stands in a url -/

/-- A string behind white space, as far as it goes. -/
inductive UrlString (quote : Char) : List Char → List Char → List Char → Prop
  | behind {before inside body left : List Char} (hbefore : ∀ c ∈ before, isBlank c = true)
      (hquote : quote = '"' ∨ quote = '\'') (h : StringPart quote inside body left) :
      UrlString quote (before ++ quote :: inside) body left

/-- White space, a closed string or a run of url characters and escapes, and white space again. -/
inductive UrlInside : List Char → List Char → List Char → Prop
  | string {text body after left : List Char} {quote : Char}
      (h : UrlString quote text body (quote :: (after ++ left)))
      (hafter : ∀ c ∈ after, isBlank c = true) : UrlInside text body left
  | run {before text body after left : List Char} (hbefore : ∀ c ∈ before, isBlank c = true)
      (h : Run isUrlChar text body (after ++ left)) (hafter : ∀ c ∈ after, isBlank c = true) :
      UrlInside (before ++ text) body left

/-- A url that is not closed is left where no part of a url goes further: a string where it breaks
off, and everything else before the first character that does not go on with it. -/
structure UrlBroken (text body left : List Char) : Prop where
  part : UrlInside text body left ∨ (∃ quote, UrlString quote text body left) ∧ BreaksString left
  longest : ∀ other later,
    UrlInside text other later ∨ (∃ quote, UrlString quote text other later) → left <:+ later

/-! ## White space -/

theorem urlBody_blanks (h : ∀ c ∈ blanks, isBlank c = true) (text : List Char) :
    urlBody (blanks ++ text) = urlBody text := by
  simp only [urlBody, List.dropWhile_append_of_pos h]

theorem closeUrl_blanks (h : ∀ c ∈ blanks, isBlank c = true) (body text : List Char) :
    closeUrl body (blanks ++ text) = closeUrl body text := by
  simp only [closeUrl, List.dropWhile_append_of_pos h]

theorem blanks_split (text : List Char) :
    ∃ blanks rest, text = blanks ++ rest ∧ (∀ c ∈ blanks, isBlank c = true) ∧
      rest = text.dropWhile isBlank :=
  ⟨text.takeWhile isBlank, _, List.takeWhile_append_dropWhile.symm,
    List.all_eq_true.mp List.all_takeWhile, rfl⟩

/-- What is inside a url goes on to its closing parenthesis, or to what is left. -/
theorem closeUrl_inside (text body rest : List Char)
    (h : ∀ after left, rest = after ++ left → (∀ c ∈ after, isBlank c = true) →
      UrlInside text body left) :
    if (closeUrl body rest).1.closed then UrlInside text body (')' :: (closeUrl body rest).2)
    else UrlInside text body (closeUrl body rest).2 := by
  obtain ⟨after, left, hrest, hafter, hleft⟩ := blanks_split rest
  have hinside := h after left hrest hafter
  by_cases hclose : left.head? = some ')'
  · obtain ⟨left, rfl⟩ := List.head?_eq_some_iff.mp hclose
    simp only [closeUrl, ← hleft, mark_cons_self, if_true]
    exact hinside
  · simp only [closeUrl, ← hleft, mark_of_head hclose, Bool.false_eq_true, if_false]
    exact hinside

/-! ## Strings -/

theorem isBlank_of_quote (h : quote = '"' ∨ quote = '\'') : isBlank quote = false := by
  rcases h with rfl | rfl
  · rfl
  · rfl

theorem urlBody_quote (hquote : quote = '"' ∨ quote = '\'') (inside : List Char) :
    urlBody (quote :: inside) =
      if (stringRun quote inside).1.2 then
        closeUrl (stringRun quote inside).1.1 (stringRun quote inside).2
      else stringBody quote inside := by
  have hdrop : (quote :: inside).dropWhile isBlank = quote :: inside :=
    List.dropWhile_cons_of_neg (by simp [isBlank_of_quote hquote])
  have hchar : char? (fun c => c = '"' || c = '\'') (quote :: inside) = some (quote, inside) :=
    char?_of_accept (by simpa using hquote) inside
  simp only [urlBody, hdrop, hchar]
  rfl

/-- A closed string in a url, and what comes behind it. -/
theorem UrlString.closed (h : UrlString quote text body (quote :: left)) :
    urlBody text = closeUrl body left := by
  obtain ⟨hbefore, hquote, hstring⟩ := h
  rw [urlBody_blanks hbefore, urlBody_quote hquote, hstring.closed hquote, if_pos rfl]

/-- A string that breaks off in a url. -/
theorem UrlString.broken (h : UrlString quote text body left) (hbreak : BreaksString left) :
    urlBody text = ({ text := body, closed := false }, left) := by
  obtain ⟨hbefore, hquote, hstring⟩ := h
  rw [urlBody_blanks hbefore, urlBody_quote hquote, stringBody, hstring.broken hbreak]
  rfl

theorem UrlString.suffix (h : UrlString quote text body left) : (urlBody text).2 <:+ left := by
  obtain ⟨hbefore, hquote, hstring⟩ := h
  rw [urlBody_blanks hbefore, urlBody_quote hquote, stringBody, hstring.stringRun_eq]
  have hrun := stringRun_suffix quote left
  split
  · exact (closeUrl_suffix _ _).trans hrun
  · exact hrun

/-! ## Runs -/

theorem urlBody_unquoted (hdrop : text.dropWhile isBlank = text)
    (hquote : char? (fun c => c = '"' || c = '\'') text = none) :
    urlBody text = closeUrl (units isUrlChar text).1 (units isUrlChar text).2 := by
  simp only [urlBody, hdrop, hquote]

theorem Run.stop_or_opens {accept : Char → Bool} (h : Run accept text body left) :
    body = [] ∧ text = left ∨ Opens accept text := by
  cases h with
  | stop => exact .inl ⟨rfl, rfl⟩
  | char haccept => exact .inr (.char haccept)
  | escape hescape =>
      obtain ⟨d, more, rfl, hbreak⟩ := escape?_eq_some (escape?_iff.mpr hescape)
      exact .inr (.escape hbreak)

theorem not_isUrlChar_of_isBlank (h : isBlank c = true) : isUrlChar c = false := by
  simp only [isBlank, Bool.or_eq_true, decide_eq_true_eq] at h
  rcases h with (rfl | rfl) | rfl
  · rfl
  · rfl
  · rfl

theorem unit?_url_blank (h : isBlank c = true) (text : List Char) :
    unit? isUrlChar (c :: text) = none := by
  apply unit?_of_not_accept (not_isUrlChar_of_isBlank h)
  rintro rfl
  cases h

/-- What opens a run is neither white space nor a quote. -/
theorem urlBody_opens (h : Opens isUrlChar text) :
    urlBody text = closeUrl (units isUrlChar text).1 (units isUrlChar text).2 := by
  have hunit := opens_iff.mp h
  obtain ⟨d, more, rfl, hd⟩ : ∃ d more, text = d :: more ∧ (isUrlChar d = true ∨ d = '\\') := by
    obtain ⟨found, hfound⟩ := Option.ne_none_iff_exists'.mp hunit
    exact head_of_unit? hfound
  have hdrop : (d :: more).dropWhile isBlank = d :: more := by
    apply List.dropWhile_cons_of_neg
    intro hblank
    exact hunit (unit?_url_blank hblank more)
  have hchar : char? (fun c => c = '"' || c = '\'') (d :: more) = none := by
    refine char?_of_not_accept (Bool.eq_false_iff.mpr fun hquote => ?_) more
    have hquote : d = '"' ∨ d = '\'' := by simpa using hquote
    rcases hquote with rfl | rfl <;> rcases hd with hd | hd <;> cases hd
  exact urlBody_unquoted hdrop hchar

/-- White space ends a run, and so does a parenthesis. -/
theorem units_url_close (h : ∀ c ∈ blanks, isBlank c = true) (left : List Char) :
    units isUrlChar (blanks ++ ')' :: left) = ([], blanks ++ ')' :: left) := by
  apply units_of_none
  cases blanks with
  | nil => exact unit?_of_not_accept rfl (by decide)
  | cons c blanks => exact unit?_url_blank (h c List.mem_cons_self) _

theorem urlBody_parenthesis (left : List Char) :
    urlBody (')' :: left) = ({ text := [], closed := true }, left) := by
  have hrun : units isUrlChar (')' :: left) = ([], ')' :: left) := units_of_none rfl
  rw [urlBody_unquoted rfl rfl, hrun, closeUrl_parenthesis]

theorem units_url_suffix (h : ∀ c ∈ blanks, isBlank c = true) (body left : List Char) :
    (closeUrl body (units isUrlChar (blanks ++ left)).2).2 <:+ left := by
  cases blanks with
  | nil => exact (closeUrl_suffix _ _).trans (units_suffix _ _)
  | cons c blanks =>
      rw [List.cons_append, units_of_none (unit?_url_blank (h c List.mem_cons_self) _),
        ← List.cons_append, closeUrl_blanks h]
      exact closeUrl_suffix _ _

/-! ## What is read -/

/-- A url that is closed is read to its parenthesis. -/
theorem UrlInside.closes (h : UrlInside text body (')' :: left)) :
    urlBody text = ({ text := body, closed := true }, left) := by
  cases h with
  | string hstring hafter =>
      rw [hstring.closed, closeUrl_blanks hafter, closeUrl_parenthesis]
  | run hbefore hrun hafter =>
      rw [urlBody_blanks hbefore]
      -- all white space around an empty run is skipped in front of it
      rcases hrun.stop_or_opens with ⟨rfl, rfl⟩ | hopens
      · rw [urlBody_blanks hafter, urlBody_parenthesis]
      · rw [urlBody_opens hopens, hrun.units_eq rfl, units_url_close hafter,
          closeUrl_blanks hafter, closeUrl_parenthesis, List.append_nil]

theorem UrlInside.suffix (h : UrlInside text body left) : (urlBody text).2 <:+ left := by
  cases h with
  | string hstring hafter =>
      rw [hstring.closed, closeUrl_blanks hafter]
      exact closeUrl_suffix _ _
  | run hbefore hrun hafter =>
      rw [urlBody_blanks hbefore]
      rcases hrun.stop_or_opens with ⟨rfl, rfl⟩ | hopens
      · rw [urlBody_blanks hafter]
        exact urlBody_suffix _
      · rw [urlBody_opens hopens, hrun.units_eq rfl]
        exact units_url_suffix hafter _ _

/-- Everything that is read of a url is a part of one. -/
theorem urlBody_part (text : List Char) :
    if (urlBody text).1.closed then UrlInside text (urlBody text).1.text (')' :: (urlBody text).2)
    else UrlInside text (urlBody text).1.text (urlBody text).2 ∨
      (∃ quote, UrlString quote text (urlBody text).1.text (urlBody text).2) ∧
        BreaksString (urlBody text).2 := by
  obtain ⟨before, rest, rfl, hbefore, hrest⟩ := blanks_split text
  rw [urlBody_blanks hbefore]
  cases hchar : char? (fun c => c = '"' || c = '\'') rest with
  | some found =>
      obtain ⟨rfl, hquote⟩ := eq_cons_of_char? hchar
      have hquote : found.1 = '"' ∨ found.1 = '\'' := by simpa using hquote
      obtain ⟨body, left, hpart, hleft⟩ := exists_stringPart found.1 found.2
      have hstring := UrlString.behind hbefore hquote hpart
      rw [← urlBody_blanks hbefore]
      rcases hleft with hhead | hbreak
      · obtain ⟨left, rfl⟩ := List.head?_eq_some_iff.mp hhead
        rw [hstring.closed]
        have hinside := closeUrl_inside (before ++ found.1 :: found.2) body left
          fun after left hafter hblank => .string (hafter ▸ hstring) hblank
        split
        · next hclosed => rwa [if_pos hclosed] at hinside
        · next hopen =>
          rw [if_neg hopen] at hinside
          exact .inl hinside
      · rw [hstring.broken hbreak]
        exact .inr ⟨⟨_, hstring⟩, hbreak⟩
  | none =>
      have hdrop : rest.dropWhile isBlank = rest := by
        rw [hrest]
        exact dropWhile_of_char?_none (char?_dropWhile _ _)
      have hrun := units_run isUrlChar rest
      have hinside := closeUrl_inside (before ++ rest) (units isUrlChar rest).1
        (units isUrlChar rest).2 fun after left hafter hblank =>
          .run hbefore (hafter ▸ hrun) hblank
      rw [urlBody_unquoted hdrop hchar]
      split
      · next hclosed => rwa [if_pos hclosed] at hinside
      · next hopen =>
        rw [if_neg hopen] at hinside
        exact .inl hinside

/-- A url that is not closed is read as far as it goes. -/
theorem urlBody_broken (h : (urlBody text).1.closed = false) :
    UrlBroken text (urlBody text).1.text (urlBody text).2 := by
  have hpart := urlBody_part text
  rw [if_neg (by simp [h])] at hpart
  refine ⟨hpart, ?_⟩
  intro other later hother
  rcases hother with hinside | ⟨quote, hstring⟩
  · exact hinside.suffix
  · exact hstring.suffix

/-! ## The name of a url -/

theorem isNameStart_of_lowerLetter (h : lowerLetter c = 'u') : isNameStart c = true := by
  unfold lowerLetter at h
  split at h
  · next hupper => simp [isNameStart, isLetter, hupper]
  · rw [h]
    rfl

/-- A run that spells the start of a name is an identifier. -/
theorem Run.ident?_eq {name rest : List Char} (h : Run isNameChar text (c :: name) rest)
    (hstart : isNameStart c = true) (hstop : unit? isNameChar rest = none) :
    ident? text = some (c :: name, rest) := by
  apply ident?_iff.mpr
  constructor
  · apply OpensIdentifier.plain
    cases h with
    | char => exact .char hstart
    | escape hescape =>
        obtain ⟨d, more, rfl, hbreak⟩ := escape?_eq_some (escape?_iff.mpr hescape)
        exact .escape hbreak
  · apply (longestRun_iff rfl).mpr
    rw [h.units_eq rfl, units_of_none hstop, List.append_nil]

/-- The name of a url with a parenthesis behind it opens one, however the name is spelled. -/
theorem lexeme_of_urlName {name rest : List Char} (h : Run isNameChar text name ('(' :: rest))
    (hname : name.map lowerLetter = ['u', 'r', 'l']) :
    lexeme text = (ofBody .url .badUrl (urlBody rest).1, (urlBody rest).2) := by
  obtain ⟨first, more, rfl, hfirst, -⟩ := List.map_eq_cons_iff.mp hname
  have hstop : unit? isNameChar ('(' :: rest) = none := unit?_of_not_accept rfl (by decide)
  rw [lexeme_of_ident? (h.ident?_eq (isNameStart_of_lowerLetter hfirst) hstop)]
  simp only [identLike, mark_cons_self, hname, if_true]

/-! ## What an unquoted url takes -/

/-- A piece without a quote, a parenthesis or a backslash of no escape. -/
def Piece.Harmless : Piece → Prop
  | escape _ _ => True
  | continuation => False
  | bare c => c ∉ ['"', '\'', '(', ')', '\\']

theorem harmless_of_accept {accept : Char → Bool}
    (hmarks : ['"', '\'', '(', ')', '\\'].all (!accept ·) = true) (h : accept c = true) :
    (Piece.bare c).Harmless := by
  intro hmem
  have hc := List.all_eq_true.mp hmarks c hmem
  rw [h] at hc
  cases hc

theorem before_of_harmless (h : (Piece.bare c).Harmless) (rest : List Char) :
    (Piece.bare c).Before rest := by
  rintro rfl
  exact absurd h (by simp [Piece.Harmless])

theorem pieces_blanks (h : ∀ c ∈ blanks, isBlank c = true) (rest : List Char) :
    ∃ pieces, Pieces (blanks ++ rest) pieces rest ∧ ∀ piece ∈ pieces, piece.Harmless := by
  induction blanks with
  | nil => exact ⟨[], .stop rest, nofun⟩
  | cons c blanks ih =>
      obtain ⟨hc, hmore⟩ := List.forall_mem_cons.mp h
      obtain ⟨pieces, hpieces, hharmless⟩ := ih hmore
      have hfirst := harmless_of_accept rfl hc
      exact ⟨.bare c :: pieces, hpieces.bare (before_of_harmless hfirst _),
        List.forall_mem_cons.mpr ⟨hfirst, hharmless⟩⟩

theorem Run.pieces (h : Run isUrlChar text body left) :
    ∃ pieces, Pieces text pieces left ∧ ∀ piece ∈ pieces, piece.Harmless := by
  induction h with
  | stop text => exact ⟨[], .stop text, nofun⟩
  | @char c text body left hc _ ih =>
      obtain ⟨pieces, hpieces, hharmless⟩ := ih
      have hfirst := harmless_of_accept rfl hc
      exact ⟨.bare c :: pieces, hpieces.bare (before_of_harmless hfirst _),
        List.forall_mem_cons.mpr ⟨hfirst, hharmless⟩⟩
  | @escape c text middle body left hescape _ ih =>
      obtain ⟨pieces, hpieces, hharmless⟩ := ih
      obtain ⟨spelling, rfl⟩ := (escape?_tail (escape?_iff.mpr hescape)).1
      exact ⟨.escape spelling c :: pieces, hpieces.escape spelling hescape,
        List.forall_mem_cons.mpr ⟨trivial, hharmless⟩⟩

/-- Where no quote stands in front, neither a quote nor a parenthesis is taken, and no backslash but
that of an escape. -/
theorem UrlBroken.pieces (h : UrlBroken text body left)
    (hquote : ∀ c ∈ (text.dropWhile isBlank).head?, c ≠ '"' ∧ c ≠ '\'') :
    ∃ pieces, Pieces text pieces left ∧ ∀ piece ∈ pieces, piece.Harmless := by
  have hnone : ∀ quote body left, ¬ UrlString quote text body left := by
    intro quote body left hstring
    obtain ⟨hbefore, hq, -⟩ := hstring
    rw [List.dropWhile_append_of_pos hbefore,
      List.dropWhile_cons_of_neg (by simp [isBlank_of_quote hq])] at hquote
    exact hq.elim (hquote _ rfl).1 (hquote _ rfl).2
  rcases h.part with hinside | ⟨⟨quote, hstring⟩, -⟩
  · cases hinside with
    | string hstring => exact absurd hstring (hnone _ _ _)
    | @run before text body after left hbefore hrun hafter =>
        obtain ⟨front, hfront, hharmless⟩ := pieces_blanks hbefore text
        obtain ⟨middle, hmiddle, hharmless'⟩ := hrun.pieces
        obtain ⟨behind, hbehind, hharmless''⟩ := pieces_blanks hafter left
        refine ⟨front ++ (middle ++ behind), hfront.trans (hmiddle.trans hbehind), ?_⟩
        intro piece hpiece
        rw [List.mem_append, List.mem_append] at hpiece
        rcases hpiece with hpiece | hpiece | hpiece
        · exact hharmless piece hpiece
        · exact hharmless' piece hpiece
        · exact hharmless'' piece hpiece
  · exact absurd hstring (hnone _ _ _)

end CssLex.Grammar
