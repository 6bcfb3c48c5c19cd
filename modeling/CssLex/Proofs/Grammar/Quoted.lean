import CssLex.Proofs.Grammar.Spelling

/-! How strings are spelled. A text splits from the left into escapes, continued lines and single
characters, in one way, and a string ends at the first single character that ends it. -/

namespace CssLex.Grammar

open Production

/-! ## Pieces -/

/-- A piece of what stands behind an opening quote. -/
inductive Piece where
  /-- An escape as it is spelled, and the character that it stands for. -/
  | escape (spelling : List Char) (c : Char)
  /-- A backslash with a line feed behind it. -/
  | continuation
  /-- A single character. -/
  | bare (c : Char)
deriving Repr, DecidableEq

namespace Piece

variable {piece other : Piece} {rest rest' : List Char} {quote : Char}

def spelling : Piece → List Char
  | escape spelling _ => spelling
  | continuation => ['\\', '\n']
  | bare c => [c]

/-- The character that a piece adds to the text of a string. -/
def value : Piece → Char
  | escape _ c => c
  | continuation => '\n'
  | bare c => c

/-- The character of an escape. -/
def escaped? : Piece → Option Char
  | escape _ c => some c
  | _ => none

/-- What may stand behind a piece. It ends an escape, and nothing stands behind a single
backslash. -/
def Before (rest : List Char) : Piece → Prop
  | escape spelling c => Escapes (spelling ++ rest) c rest
  | continuation => True
  | bare c => c = '\\' → rest = []

/-- The pieces that end a string, in which it goes on no further. -/
def ends (quote : Char) : Piece → Bool
  | bare c => c = quote || c = '\n' || c = '\\'
  | _ => false

theorem Before.escape?_eq (h : piece.Before rest) :
    escape? (piece.spelling ++ rest) = piece.escaped?.map (·, rest) := by
  cases piece with
  | escape spelling c => exact escape?_iff.mpr h
  | continuation => exact escape?_backslash_eq_none.mpr (.inr rfl)
  | bare c =>
      by_cases hc : c = '\\'
      · rw [h hc, hc]
        rfl
      · exact escape?_of_ne hc

theorem Before.spelling_ne_nil (h : piece.Before rest) : piece.spelling ≠ [] := by
  cases piece with
  | escape spelling c =>
      have hescape := escape?_iff.mpr h
      intro hnil
      rw [show spelling = [] from hnil, List.nil_append] at hescape
      exact absurd (escape?_tail hescape).2 (Nat.lt_irrefl _)
  | continuation => exact List.cons_ne_nil _ _
  | bare c => exact List.cons_ne_nil _ _

/-- No text starts with two different pieces. -/
theorem Before.unique (h : piece.Before rest) (h' : other.Before rest')
    (heq : piece.spelling ++ rest = other.spelling ++ rest') : piece = other ∧ rest = rest' := by
  -- whether an escape stands in front, and which, is told by the text alone
  have hescape := h.escape?_eq
  rw [heq, h'.escape?_eq] at hescape
  cases piece with
  | escape spelling c =>
      cases other with
      | escape spelling' c' =>
          cases hescape
          exact ⟨congrArg (escape · c) (List.append_cancel_right heq), rfl⟩
      | continuation => cases hescape
      | bare c' => cases hescape
  | continuation =>
      cases other with
      | escape spelling' c' => cases hescape
      | continuation => exact ⟨rfl, (List.append_cancel_left heq)⟩
      | bare c' =>
          cases heq
          cases h' rfl
  | bare c =>
      cases other with
      | escape spelling' c' => cases hescape
      | continuation =>
          cases heq
          cases h rfl
      | bare c' =>
          cases heq
          exact ⟨rfl, rfl⟩

/-- Every text but the empty one starts with a piece. -/
theorem exists_before {text : List Char} (h : text ≠ []) :
    ∃ (piece : Piece) (rest : List Char), piece.spelling ++ rest = text ∧ piece.Before rest := by
  cases hescape : escape? text with
  | some found =>
      obtain ⟨spelling, hspelling⟩ := (escape?_tail hescape).1
      refine ⟨.escape spelling found.1, found.2, hspelling, ?_⟩
      rw [← hspelling] at hescape
      exact escape?_iff.mp hescape
  | none =>
      obtain ⟨c, rest, rfl⟩ := List.exists_cons_of_ne_nil h
      by_cases hbreak : c = '\\' ∧ rest.head? = some '\n'
      · obtain ⟨rfl, hhead⟩ := hbreak
        obtain ⟨rest, rfl⟩ := List.head?_eq_some_iff.mp hhead
        exact ⟨.continuation, rest, rfl, trivial⟩
      · refine ⟨.bare c, rest, rfl, ?_⟩
        intro hc
        rw [hc] at hescape hbreak
        exact (escape?_backslash_eq_none.mp hescape).resolve_right fun hhead => hbreak ⟨rfl, hhead⟩

end Piece

/-- The pieces that a text starts with, and what is left behind them. -/
inductive Pieces : List Char → List Piece → List Char → Prop
  | stop (text : List Char) : Pieces text [] text
  | more {piece : Piece} {text left : List Char} {pieces : List Piece} (hpiece : piece.Before text)
      (h : Pieces text pieces left) : Pieces (piece.spelling ++ text) (piece :: pieces) left

namespace Pieces

variable {text middle left : List Char} {pieces others : List Piece}

theorem bare {c : Char} (hc : c = '\\' → text = []) (h : Pieces text pieces left) :
    Pieces (c :: text) (.bare c :: pieces) left :=
  @more (.bare c) _ _ _ hc h

theorem continuation (h : Pieces text pieces left) :
    Pieces ('\\' :: '\n' :: text) (.continuation :: pieces) left :=
  @more .continuation _ _ _ trivial h

theorem escape (spelling : List Char) {c : Char} (hescape : Escapes (spelling ++ text) c text)
    (h : Pieces text pieces left) :
    Pieces (spelling ++ text) (.escape spelling c :: pieces) left :=
  @more (.escape spelling c) _ _ _ hescape h

theorem spelled (h : Pieces text pieces left) :
    pieces.flatMap (·.spelling) ++ left = text := by
  induction h with
  | stop text => rfl
  | more _ _ ih => rw [List.flatMap_cons, List.append_assoc, ih]

theorem trans (h : Pieces text pieces middle) (h' : Pieces middle others left) :
    Pieces text (pieces ++ others) left := by
  induction h with
  | stop text => exact h'
  | more hpiece _ ih => exact .more hpiece (ih h')

/-- A text splits into pieces in one way. -/
theorem unique (h : Pieces text pieces []) (h' : Pieces text others []) : others = pieces := by
  generalize hleft : ([] : List Char) = left at h
  induction h generalizing others with
  | stop text =>
      subst hleft
      generalize hnil : ([] : List Char) = whole at h'
      cases h' with
      | stop text => rfl
      | more hpiece _ => exact absurd (List.append_eq_nil_iff.mp hnil.symm).1 hpiece.spelling_ne_nil
  | @more piece text left pieces hpiece _ ih =>
      generalize hwhole : piece.spelling ++ text = whole at h'
      cases h' with
      | stop text =>
          exact absurd (List.append_eq_nil_iff.mp hwhole).1 hpiece.spelling_ne_nil
      | more hother hmore =>
          obtain ⟨rfl, rfl⟩ := hpiece.unique hother hwhole
          rw [ih hmore hleft]

end Pieces

theorem exists_pieces (text : List Char) : ∃ pieces, Pieces text pieces [] := by
  generalize hn : text.length = n
  induction n using Nat.strongRecOn generalizing text with
  | ind n ih =>
      by_cases hnil : text = []
      · exact ⟨[], hnil ▸ .stop []⟩
      · obtain ⟨piece, rest, rfl, hpiece⟩ := Piece.exists_before hnil
        have hlength := List.length_pos_iff.mpr hpiece.spelling_ne_nil
        rw [List.length_append] at hn
        obtain ⟨pieces, hpieces⟩ := ih rest.length (by omega) rest rfl
        exact ⟨piece :: pieces, .more hpiece hpieces⟩

/-! ## Strings -/

/-- Where a string breaks off: at the end of the text, before a line feed and before a backslash
that ends the text. -/
def BreaksString (left : List Char) : Prop := left = [] ∨ left.head? = some '\n' ∨ left = ['\\']

/-- Pieces behind an opening quote that do not end the string, the characters that they stand for
and what is left. -/
inductive StringPart (quote : Char) : List Char → List Char → List Char → Prop
  | pieces {text left : List Char} {pieces : List Piece} (h : Pieces text pieces left)
      (hopen : ∀ piece ∈ pieces, piece.ends quote = false) :
      StringPart quote text (pieces.map (·.value)) left

variable {quote : Char} {text left body : List Char} {piece : Piece} {pieces : List Piece}

theorem stringTurn_piece (h : piece.Before left) (hopen : piece.ends quote = false) :
    stringTurn quote (piece.spelling ++ left) = (.more piece.value, left) := by
  have hescape := h.escape?_eq
  cases piece with
  | escape spelling c =>
      obtain ⟨d, more, htext, -⟩ := escape?_eq_some hescape
      rw [htext] at hescape ⊢
      simp only [stringTurn, hescape, Char.reduceEq, if_true, if_false]
      rfl
  | continuation => rfl
  | bare c =>
      simp only [Piece.ends, Bool.or_eq_false_iff, decide_eq_false_iff_not] at hopen
      obtain ⟨⟨hquote, hbreak⟩, hbackslash⟩ := hopen
      change stringTurn quote (c :: left) = _
      rw [stringTurn, if_neg hbreak, if_neg hbackslash, if_neg hquote]
      rfl

theorem stringTurn_break (h : BreaksString left) : stringTurn quote left = (.stop false, left) := by
  rcases h with rfl | hhead | rfl
  · rfl
  · obtain ⟨rest, rfl⟩ := List.head?_eq_some_iff.mp hhead
    rfl
  · rfl

theorem stringTurn_quote (hquote : quote = '"' ∨ quote = '\'') (text : List Char) :
    stringTurn quote (quote :: text) = (.stop true, text) := by
  rcases hquote with rfl | rfl
  · rfl
  · rfl

/-- Pieces that do not end a string are read, and the reading goes on behind them. -/
theorem StringPart.stringRun_eq (h : StringPart quote text body left) :
    stringRun quote text =
      ((body ++ (stringRun quote left).1.1, (stringRun quote left).1.2),
        (stringRun quote left).2) := by
  obtain ⟨hpieces, hopen⟩ := h
  induction hpieces with
  | stop text => rfl
  | more hpiece _ ih =>
      obtain ⟨hfirst, hmore⟩ := List.forall_mem_cons.mp hopen
      rw [stringRun_of_more (stringTurn_piece hpiece hfirst), ih hmore]
      rfl

/-- A string that its quote closes. -/
theorem StringPart.closed (hquote : quote = '"' ∨ quote = '\'')
    (h : StringPart quote text body (quote :: left)) :
    stringRun quote text = ((body, true), left) := by
  rw [h.stringRun_eq, stringRun_of_stop (stringTurn_quote hquote left), List.append_nil]

/-- A string that breaks off. -/
theorem StringPart.broken (h : StringPart quote text body left) (hbreak : BreaksString left) :
    stringRun quote text = ((body, false), left) := by
  rw [h.stringRun_eq, stringRun_of_stop (stringTurn_break hbreak), List.append_nil]

/-- The pieces up to the first one that ends a string, and what is left there: the closing quote, or
a place where the string breaks off. -/
theorem Pieces.up_to_end (quote : Char) (h : Pieces text pieces []) :
    ∃ left, Pieces text (pieces.takeWhile (!·.ends quote)) left ∧
      if pieces.find? (·.ends quote) = some (.bare quote) then left.head? = some quote
      else BreaksString left := by
  generalize hleft : ([] : List Char) = last at h
  induction h with
  | stop text => exact ⟨text, .stop text, .inl hleft.symm⟩
  | @more piece text last pieces hpiece hmore ih =>
      cases hends : piece.ends quote with
      | false =>
          obtain ⟨left, hpieces, hleft⟩ := ih hleft
          refine ⟨left, ?_, ?_⟩
          · rw [List.takeWhile_cons_of_pos (by simp [hends])]
            exact .more hpiece hpieces
          · rwa [List.find?_cons_of_neg (by simp [hends])]
      | true =>
          refine ⟨piece.spelling ++ text, ?_, ?_⟩
          · rw [List.takeWhile_cons_of_neg (by simp [hends])]
            exact .stop _
          · rw [List.find?_cons_of_pos hends]
            cases piece with
            | escape spelling c => cases hends
            | continuation => cases hends
            | bare c =>
                simp only [Piece.ends, Bool.or_eq_true, decide_eq_true_eq] at hends
                split
                · next hc =>
                  cases hc
                  rfl
                · next hc =>
                  rcases hends with (rfl | rfl) | rfl
                  · exact absurd rfl hc
                  · exact .inr (.inl rfl)
                  · -- a single backslash has nothing behind it
                    exact .inr (.inr (by rw [hpiece rfl]; rfl))

theorem Pieces.stringPart (h : Pieces text (pieces.takeWhile (!·.ends quote)) left) :
    StringPart quote text ((pieces.takeWhile (!·.ends quote)).map (·.value)) left := by
  refine .pieces h ?_
  intro piece hpiece
  simpa using List.all_eq_true.mp List.all_takeWhile piece hpiece

/-- Behind an opening quote a string goes on to its closing quote, or to where it breaks off. -/
theorem exists_stringPart (quote : Char) (text : List Char) :
    ∃ body left, StringPart quote text body left ∧
      (left.head? = some quote ∨ BreaksString left) := by
  obtain ⟨pieces, hpieces⟩ := exists_pieces text
  obtain ⟨left, hinside, hleft⟩ := hpieces.up_to_end quote
  refine ⟨_, left, hinside.stringPart, ?_⟩
  split at hleft
  · exact .inl hleft
  · exact .inr hleft

end CssLex.Grammar
