import CssLex.Proofs.Production.Reads
import CssLex.Proofs.Token.Literal

/-! The longest number. What `num` reads is the longest start of the unread characters that is a
number, and everything behind it is still to come. -/

namespace CssLex

/-- `front` is the longest number that a text starts with, and `rest` is what stands behind it. -/
structure Literal.Longest (text front rest : List Char) : Prop where
  append : front ++ rest = text
  number : front ∈ spelling.matches'
  longest : ∀ longer, longer <+: text → longer ∈ spelling.matches' →
    longer.length ≤ front.length

namespace Grammar

open Production

variable {text w rest : List Char} {n : Numeral} {marker : Char}

/-! ## What is read stands in the text -/

theorem attempt_char?_append (accept : Char → Bool) (text : List Char) :
    (attempt (char? accept) text).1.toList ++ (attempt (char? accept) text).2 = text := by
  cases h : char? accept text with
  | none => rw [attempt_of_none h]; rfl
  | some found =>
      rw [attempt_of_some h]
      exact (eq_cons_of_char? h).1.symm

theorem attempt_fraction?_append (text : List Char) :
    (attempt fraction? text).1.elim [] ('.' :: ·) ++ (attempt fraction? text).2 = text := by
  cases h : fraction? text with
  | none => rw [attempt_of_none h]; rfl
  | some found =>
      rw [attempt_of_some h]
      unfold fraction? at h
      split at h
      · split at h
        · cases h
        · cases h
          exact congrArg ('.' :: ·) List.takeWhile_append_dropWhile
      · cases h

theorem attempt_exponent?_append (text : List Char) :
    ∃ marker, isExponentMarker marker = true ∧
      (attempt exponent? text).1.elim [] (marker :: ·) ++ (attempt exponent? text).2 = text := by
  cases h : exponent? text with
  | none => exact ⟨'e', rfl, by rw [attempt_of_none h]; rfl⟩
  | some found =>
      rw [attempt_of_some h]
      unfold exponent? at h
      split at h
      · next marker behind hmarker =>
        dsimp only at h
        split at h
        · cases h
        · cases h
          obtain ⟨rfl, haccept⟩ := eq_cons_of_char? hmarker
          refine ⟨marker, haccept, ?_⟩
          simp only [Option.elim_some, List.cons_append, List.append_assoc,
            List.takeWhile_append_dropWhile, attempt_char?_append]
      · cases h

/-- The numeral that is read stands at the start of the text, with its own exponent marker. -/
theorem numeral?_spelled (h : numeral? text = some (n, rest)) :
    ∃ marker, isExponentMarker marker = true ∧ n.spelled marker ++ rest = text := by
  simp only [numeral?] at h
  split at h
  · cases h
  · cases h
    obtain ⟨marker, hmarker, hexponent⟩ := attempt_exponent?_append
      (attempt fraction? ((attempt (char? isSign) text).2.dropWhile isDigit)).2
    refine ⟨marker, hmarker, ?_⟩
    simp only [Numeral.spelled, Numeral.front, List.append_assoc, hexponent,
      attempt_fraction?_append, List.takeWhile_append_dropWhile, attempt_char?_append]

/-! ## Every number at the start is read -/

/-- At the front of a numeral a numeral is read that ends there or later. -/
theorem numeral?_front_suffix (h : n.Valid) (w : List Char) :
    ∃ found rest, numeral? (n.front ++ w) = some (found, rest) ∧ rest <:+ w := by
  have hsign : attempt (char? isSign) (n.front ++ w) =
      (n.sign, n.whole ++ (n.fraction.elim [] ('.' :: ·) ++ w)) := by
    have hhead := h.front_not_sign (w := w)
    rw [List.append_assoc] at hhead
    rw [Numeral.front, List.append_assoc, List.append_assoc]
    exact attempt_sign h.sign hhead
  have hexponent : ∀ text, (attempt exponent? text).2 <:+ text :=
    fun _ => attempt_suffix fun _ _ => exponent?_tail
  simp only [numeral?, hsign, takeWhile_digits h.whole, dropWhile_digits h.whole]
  cases hfraction : n.fraction with
  | some digits =>
      have hread := fraction?_append (h.fraction digits hfraction) w
      have hdrop : ('.' :: digits ++ w).dropWhile isDigit = '.' :: digits ++ w := rfl
      simp only [Option.elim_some, hdrop, attempt_of_some hread, reduceCtorEq, and_false,
        if_false]
      exact ⟨_, _, rfl, (hexponent _).trans (List.dropWhile_suffix _)⟩
  | none =>
      have hwhole : n.whole ≠ [] := by simpa [hfraction] using h.digit
      have hrest : (attempt fraction? (w.dropWhile isDigit)).2 <:+ w :=
        (attempt_suffix fun _ _ => fraction?_tail).trans (List.dropWhile_suffix _)
      simp only [Option.elim_none, List.nil_append, List.append_eq_nil_iff, hwhole, false_and,
        if_false]
      exact ⟨_, _, rfl, (hexponent _).trans hrest⟩

/-- Where a text starts with a number, a numeral is read that ends with it or later. -/
theorem numeral?_spelled_suffix (h : n.Valid) (hmarker : isExponentMarker marker = true)
    (w : List Char) :
    ∃ found rest, numeral? (n.spelled marker ++ w) = some (found, rest) ∧ rest <:+ w := by
  cases hexponent : n.exponent with
  | none =>
      rw [Numeral.spelled, hexponent, Option.elim_none, List.append_nil]
      exact numeral?_front_suffix h w
  | some written =>
      obtain ⟨sign, digits, rfl, hsign, hdigits⟩ := h.exponent written hexponent
      have hread := exponent?_append hmarker hsign hdigits w
      have hstops : char? isDigit (marker :: (sign.toList ++ digits) ++ w) = none ∧
          fraction? (marker :: (sign.toList ++ digits) ++ w) = none := by
        rcases isExponentMarker_eq_true.mp hmarker with rfl | rfl
        · exact ⟨rfl, rfl⟩
        · exact ⟨rfl, rfl⟩
      rw [Numeral.spelled, hexponent, Option.elim_some, List.append_assoc,
        numeral?_front h hstops.1 fun _ => hstops.2, attempt_of_some hread]
      exact ⟨_, _, rfl, List.dropWhile_suffix _⟩

/-! ## The longest one is read -/

/-- What is read is the longest number at the start, and its literal is that number in lower
case. -/
theorem longest_of_numeral? (h : numeral? text = some (n, rest)) :
    ∃ front, Literal.Longest text front rest ∧ front.map lowerLetter = n.text := by
  have hvalid := numeral?_valid h
  obtain ⟨marker, hmarker, rfl⟩ := numeral?_spelled h
  refine ⟨n.spelled marker, ⟨rfl, ?_, ?_⟩, Literal.map_lowerLetter_spelled hvalid hmarker⟩
  · exact Literal.spelling_matches_iff.mpr ⟨n, marker, hvalid, hmarker, rfl⟩
  · rintro longer ⟨w, htext⟩ hlonger
    obtain ⟨other, marker', hother, hmarker', rfl⟩ := Literal.spelling_matches_iff.mp hlonger
    obtain ⟨found, rest', hread, hsuffix⟩ := numeral?_spelled_suffix hother hmarker' w
    rw [htext, h] at hread
    cases hread
    have hlength := congrArg List.length htext
    rw [List.length_append, List.length_append] at hlength
    have hrest := hsuffix.length_le
    omega

/-- Where nothing is read, no start of the text is a number. -/
theorem not_spelling_of_numeral?_eq_none (h : numeral? text = none) {front : List Char}
    (hfront : front <+: text) : front ∉ Literal.spelling.matches' := by
  intro hnumber
  obtain ⟨w, rfl⟩ := hfront
  obtain ⟨n, marker, hvalid, hmarker, rfl⟩ := Literal.spelling_matches_iff.mp hnumber
  obtain ⟨found, rest, hread, -⟩ := numeral?_spelled_suffix hvalid hmarker w
  rw [h] at hread
  cases hread

/-! ## Numbers with their values -/

theorem num?_eq_some {found : Number × List Char} (h : num? text = some (found, rest)) :
    ∃ n, numeral? text = some (n, rest) ∧ n.text = found.2 := by
  unfold num? at h
  split at h
  · next n rest hnumeral =>
    split at h
    · cases h
      exact ⟨n, hnumeral, rfl⟩
    · cases h
  · cases h

theorem num?_eq_none : num? text = none ↔ numeral? text = none := by
  cases hnumeral : numeral? text with
  | none => simp [num?, hnumeral]
  | some found =>
      obtain ⟨value, hvalue⟩ := Option.isSome_iff_exists.mp
        (numeral?_valid hnumeral).value_isSome
      simp [num?, hnumeral, hvalue]

end Grammar

namespace Production

open Grammar Scan Scanner

/-- A number is read exactly if the unread characters start with one. It is the longest, its
literal is what was read in lower case, and what stands behind it is left. -/
theorem num_longest {s : Scanner} (hs : s.Sound) :
    match num s with
    | .ok (some (_, literal)) s' => ∃ front, Literal.Longest s.unread front s'.unread ∧
        literal = front.map lowerLetter ∧ s.Reaches s'
    | .ok none s' => (∀ front, front <+: s.unread → front ∉ Literal.spelling.matches') ∧
        s.Untouched s'
    | .error e _ => e = .tooLong ∧ ¬ s.Fits := by
  have hnum := num_tries.outcome hs
  generalize num s = result at hnum ⊢
  split at hnum
  · obtain ⟨hread, hreaches⟩ := hnum
    obtain ⟨n, hnumeral, htext⟩ := num?_eq_some hread
    obtain ⟨front, hlongest, hliteral⟩ := longest_of_numeral? hnumeral
    exact ⟨front, hlongest, (hliteral.trans htext).symm, hreaches⟩
  · obtain ⟨hnone, huntouched⟩ := hnum
    exact ⟨fun _ => not_spelling_of_numeral?_eq_none (num?_eq_none.mp hnone), huntouched⟩
  · exact hnum

/-- A marker with a sign and without digits is left. -/
theorem num_longest_of_marker :
    ∃ s s' value, Scanner.Sound s ∧ s.unread = "-1.5E+x".toList ∧
      num s = .ok (some (value, "-1.5".toList)) s' ∧
      ∃ front, Literal.Longest s.unread front s'.unread ∧
        "-1.5".toList = front.map lowerLetter ∧ s.Reaches s' := by
  have hlength : "-1.5E+x".toList.length < characterLimit := by decide
  obtain ⟨s, hs, hunread, hfits⟩ := exists_scanner rfl hlength
  have hread : num? "-1.5E+x".toList =
      some ((.ofDecimal ⟨true, ['1'], some ['5'], none⟩, "-1.5".toList), "E+x".toList) := rfl
  obtain ⟨s', hnum⟩ := num_tries.ok_of_fits hs hfits
  rw [hunread, attempt_of_some hread] at hnum
  have hlongest := num_longest hs
  rw [hnum] at hlongest
  exact ⟨s, s', _, hs, hunread, hnum, hlongest⟩

end Production
end CssLex
