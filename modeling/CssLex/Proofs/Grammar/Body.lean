import CssLex.Production.Body
import CssLex.Proofs.Grammar.Name

/-! The grammar of strings, comments and urls as functions of a text. -/

namespace CssLex.Grammar

open Production

/-! ## Strings -/

/-- One turn of a string behind its opening quote. -/
def stringTurn (quote : Char) : List Char → Turn Char Bool × List Char
  | [] => (.stop false, [])
  | c :: text =>
    if c = '\n' then (.stop false, c :: text)
    else if c = '\\' then
      match escape? (c :: text) with
      | some (scalar, rest) => (.more scalar, rest)
      | none =>
        match mark ['\n'] text with
        | (true, rest) => (.more '\n', rest)
        | (false, _) => (.stop false, c :: text)
    else if c = quote then (.stop true, text)
    else (.more c, text)

theorem stringTurn_tail {quote c : Char} {text rest : List Char}
    (h : stringTurn quote text = (.more c, rest)) : IsTail rest text := by
  unfold stringTurn at h
  split at h
  · cases h
  · next d text =>
    split at h
    · cases h
    · split at h
      · split at h
        · next heq => cases h; exact escape?_tail heq
        · split at h
          · next heq =>
            cases h
            have hmark := mark_suffix ['\n'] text
            rw [heq] at hmark
            exact .of_suffix hmark (.cons d text)
          · cases h
      · split at h
        · cases h
        · cases h; exact .cons _ _

/-- The characters of a string behind its opening quote, and whether it is closed. -/
def stringRun (quote : Char) (text : List Char) : (List Char × Bool) × List Char :=
  match h : stringTurn quote text with
  | (.more c, rest) =>
    have := (stringTurn_tail h).2
    let run := stringRun quote rest
    ((c :: run.1.1, run.1.2), run.2)
  | (.stop closed, rest) => (([], closed), rest)
termination_by text.length

/-- The body of a string behind its opening quote. -/
def stringBody (quote : Char) (text : List Char) : Body × List Char :=
  let run := stringRun quote text
  ({ text := run.1.1, closed := run.1.2 }, run.2)

theorem stringTurn_suffix (quote : Char) (text : List Char) :
    (stringTurn quote text).2 <:+ text := by
  unfold stringTurn
  split
  · exact List.suffix_rfl
  · next d text =>
    split
    · exact List.suffix_rfl
    · split
      · split
        · next heq => exact (escape?_tail heq).1
        · split
          · next heq =>
            have hmark := mark_suffix ['\n'] text
            rw [heq] at hmark
            exact hmark.trans (List.suffix_cons d text)
          · exact List.suffix_rfl
      · split <;> exact List.suffix_cons d text

theorem stringRun_suffix (quote : Char) (text : List Char) : (stringRun quote text).2 <:+ text := by
  fun_induction stringRun quote text with
  | case1 text c rest h _ run ih => exact ih.trans (stringTurn_tail h).1
  | case2 text closed rest h =>
      have := stringTurn_suffix quote text
      rw [h] at this
      exact this

theorem stringRun_of_more {quote c : Char} {text rest : List Char}
    (h : stringTurn quote text = (.more c, rest)) :
    stringRun quote text =
      ((c :: (stringRun quote rest).1.1, (stringRun quote rest).1.2),
        (stringRun quote rest).2) := by
  rw [stringRun]
  split
  · next heq => rw [h] at heq; cases heq; rfl
  · next heq => rw [h] at heq; cases heq

theorem stringRun_of_stop {quote : Char} {closed : Bool} {text rest : List Char}
    (h : stringTurn quote text = (.stop closed, rest)) :
    stringRun quote text = (([], closed), rest) := by
  rw [stringRun]
  split
  · next heq => rw [h] at heq; cases heq
  · next heq => rw [h] at heq; cases heq; rfl

/-! ## Comments -/

/-- One turn of a comment behind its opening mark. -/
def commentTurn : List Char → Turn Char Bool × List Char
  | [] => (.stop false, [])
  | c :: text =>
    if c = '*' then
      match mark ['/'] text with
      | (true, rest) => (.stop true, rest)
      | (false, _) => (.more c, text)
    else (.more c, text)

/-- The characters of a comment behind its opening mark, and whether it is closed. -/
def commentRun : List Char → (List Char × Bool) × List Char
  | [] => (([], false), [])
  | '*' :: '/' :: text => (([], true), text)
  | c :: text =>
    let run := commentRun text
    ((c :: run.1.1, run.1.2), run.2)

/-- The body of a comment behind its opening mark. -/
def commentBody (text : List Char) : Body × List Char :=
  let run := commentRun text
  ({ text := run.1.1, closed := run.1.2 }, run.2)

theorem commentRun_of_more {c : Char} {text rest : List Char}
    (h : commentTurn text = (.more c, rest)) :
    commentRun text =
      ((c :: (commentRun rest).1.1, (commentRun rest).1.2), (commentRun rest).2) := by
  cases text with
  | nil => cases h
  | cons d text =>
      by_cases hstar : d = '*'
      · subst hstar
        by_cases hslash : text.head? = some '/'
        · obtain ⟨text, rfl⟩ := List.head?_eq_some_iff.mp hslash
          simp [commentTurn, mark_cons_self] at h
        · simp only [commentTurn, mark_of_head hslash, if_true] at h
          cases h
          rw [commentRun.eq_3 _ _ (by rintro _ - rfl; simp at hslash)]
      · simp only [commentTurn, hstar, if_false] at h
        cases h
        rw [commentRun.eq_3 _ _ fun _ hd => absurd hd hstar]

theorem commentRun_of_stop {closed : Bool} {text rest : List Char}
    (h : commentTurn text = (.stop closed, rest)) : commentRun text = (([], closed), rest) := by
  cases text with
  | nil => cases h; rfl
  | cons d text =>
      by_cases hstar : d = '*'
      · subst hstar
        by_cases hslash : text.head? = some '/'
        · obtain ⟨text, rfl⟩ := List.head?_eq_some_iff.mp hslash
          simp only [commentTurn, mark_cons_self, if_true] at h
          cases h
          rfl
        · simp [commentTurn, mark_of_head hslash] at h
      · simp [commentTurn, hstar] at h

theorem commentRun_suffix (text : List Char) : (commentRun text).2 <:+ text := by
  fun_induction commentRun text with
  | case1 => exact List.suffix_rfl
  | case2 text => exact (List.suffix_cons '/' text).trans (List.suffix_cons '*' _)
  | case3 c text _ run ih => exact ih.trans (List.suffix_cons c text)

theorem commentRun_front (text : List Char) : (commentRun text).1.1 <+: text := by
  fun_induction commentRun text with
  | case1 => exact List.nil_prefix
  | case2 text => exact List.nil_prefix
  | case3 c text _ run ih => exact List.cons_prefix_cons.mpr ⟨rfl, ih⟩

/-! ## Urls -/

/-- The end of a url: a parenthesis behind white space. -/
def closeUrl (body text : List Char) : Body × List Char :=
  let close := mark [')'] (text.dropWhile isBlank)
  ({ text := body, closed := close.1 }, close.2)

/-- The body of a url behind its parenthesis: a string, or a run of url characters. -/
def urlBody (text : List Char) : Body × List Char :=
  match char? (fun c => c = '"' || c = '\'') (text.dropWhile isBlank) with
  | some (quote, rest) =>
    let body := stringBody quote rest
    if body.1.closed then closeUrl body.1.text body.2 else body
  | none =>
    let run := units isUrlChar (text.dropWhile isBlank)
    closeUrl run.1 run.2

theorem closeUrl_parenthesis (body text : List Char) :
    closeUrl body (')' :: text) = ({ text := body, closed := true }, text) := rfl

theorem closeUrl_suffix (body text : List Char) : (closeUrl body text).2 <:+ text :=
  (mark_suffix _ _).trans (List.dropWhile_suffix _)

theorem urlBody_suffix (text : List Char) : (urlBody text).2 <:+ text := by
  have hblank := List.dropWhile_suffix (l := text) isBlank
  simp only [urlBody]
  split
  · next quote rest heq =>
    have hbody : (stringBody quote rest).2 <:+ text :=
      (stringRun_suffix quote rest).trans ((char?_tail heq).1.trans hblank)
    split
    · exact (closeUrl_suffix _ _).trans hbody
    · exact hbody
  · exact (closeUrl_suffix _ _).trans ((units_suffix _ _).trans hblank)

end CssLex.Grammar
