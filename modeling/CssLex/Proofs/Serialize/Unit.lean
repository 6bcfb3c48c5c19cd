import CssLex.Proofs.Serialize.Plain
import CssLex.Proofs.Token.Value
import CssLex.Proofs.Tokenizer.Boundary

/-! Numbers and units. Whatever the literal and the unit of a dimension are, its source text reads
back as that dimension alone, and so does the source text of a quantity that has an integer and no
literal. -/

namespace CssLex

open Grammar

namespace Tokenizer

/-- The source text holds this lexeme and nothing else, unless it is too long to be read. -/
def ReadsAs (css : String) (l : Lexeme) : Prop :=
  (ofString css).tokenize =
    if css.length ≤ characterLimit then
      .ok [⟨l, ⟨0, css.length⟩, 1⟩, Token.atEnd css.length 1]
    else .error .tooLong

theorem readsAs_of_lexeme {css : List Char} {l : Lexeme} (hplain : ∀ c ∈ css, isControl c = false)
    (hne : css ≠ []) (h : lexeme (css ++ []) = (l, [])) : ReadsAs (String.ofList css) l := by
  have hbreaks : css.count '\n' = 0 :=
    List.count_eq_zero.mpr fun hmem => absurd (hplain _ hmem) (by decide)
  have hcountable : Countable css ↔ css.length ≤ characterLimit := by
    rw [Countable, hbreaks, and_iff_left (by decide)]
  have htokens : tokens 0 1 (css ++ []) = _ := tokens_of_lexeme hne h
  rw [List.append_nil, hbreaks, tokens_nil, Nat.zero_add] at htokens
  rw [ReadsAs, tokenize_text, String.toList_ofList, String.length_ofList,
    (preprocessed_of_not_isControl hplain).normalize_eq, htokens]
  exact if_congr hcountable rfl rfl

end Tokenizer

namespace Grammar

open Tokenizer

/-! ## Numerals with what they count -/

variable {n : Numeral}

theorem Numeral.Valid.text_ne_nil (h : n.Valid) : n.text ≠ [] := by
  obtain ⟨c, rest, hunsigned, -⟩ := h.unsigned_head
  simp [n.text_eq, hunsigned]

theorem readsAs_dimension (h : n.Valid) {unit : List Char} (hunit : unit ≠ []) :
    ReadsAs (n.lexeme .dimension (some (String.ofList unit))).toCss
      (n.lexeme .dimension (some (String.ofList unit))) := by
  refine readsAs_of_lexeme (fun c hc => ?_) ?_ (lexeme_dimension h hunit rfl (by simp))
  · rw [n.css_dimension] at hc
    exact (List.mem_append.mp hc).elim h.plain Serialize.unit_plain
  · rw [n.css_dimension]
    simp [h.text_ne_nil]

theorem readsAs_percentage (h : n.Valid) :
    ReadsAs (n.lexeme .percentage (some "%")).toCss (n.lexeme .percentage (some "%")) := by
  refine readsAs_of_lexeme (fun c hc => ?_) ?_ (lexeme_percentage h [])
  · rw [n.css_percentage] at hc
    rcases List.mem_append.mp hc with hc | hc
    · exact h.plain hc
    · rw [List.mem_singleton.mp hc]
      rfl
  · simp [n.css_percentage]

theorem readsAs_number (h : n.Valid) :
    ReadsAs (n.lexeme .number none).toCss (n.lexeme .number none) := by
  refine readsAs_of_lexeme (fun c hc => ?_) ?_ (lexeme_number h n.stopsAt_nil (by simp) rfl)
  · rw [n.css_number] at hc
    exact h.plain hc
  · rw [n.css_number]
    exact h.text_ne_nil

end Grammar

namespace Lexeme

open Tokenizer

/-! ## Quantities that were not read -/

/-- A dimension reads back with its literal and its unit, whatever number it carries. -/
theorem readsAs_of_literal {literal unit : String}
    (hliteral : literal.toList ∈ Literal.pattern.matches') (hunit : unit ≠ "")
    (number : Option Number) :
    ∃ value, Number.ofLiteral? literal.toList = some value ∧
      ReadsAs (toCss ⟨.dimension, some unit, number, some literal⟩)
        ⟨.dimension, some unit, some value, some literal⟩ := by
  obtain ⟨value, hvalue, -⟩ := Literal.exists_denotes hliteral
  obtain ⟨n, hvalid, htext⟩ := Literal.pattern_matches_iff.mp hliteral
  have hne : unit.toList ≠ [] := by simpa using hunit
  have hread := readsAs_dimension hvalid hne
  refine ⟨value, hvalue, ?_⟩
  rw [Numeral.lexeme, htext, hvalue, String.ofList_toList, String.ofList_toList] at hread
  exact hread

/-- The integer of a quantity without a literal is its literal when it is read back. -/
theorem ofInt_lexeme {i : Int} (hlow : -2 ^ 63 ≤ i) (hhigh : i ≤ 2 ^ 63 - 1) (kind : TokenKind)
    (text : Option String) :
    (Numeral.ofInt i).lexeme kind text = ⟨kind, text, some (.integer i), some (toString i)⟩ := by
  rw [Numeral.lexeme, Numeral.text_ofInt, Literal.ofLiteral?_toString hlow hhigh,
    String.ofList_toList]

/-- Numbers and units never run together in source text. A dimension reads back with its literal,
its unit and the value of the literal; a dimension, a percentage and a number that have an integer
of 64 bits and no literal read back with that integer. -/
theorem quantities_read_back {literal unit : String}
    (hliteral : literal.toList ∈ Literal.pattern.matches') (hunit : unit ≠ "")
    {i : Int} (hlow : -2 ^ 63 ≤ i) (hhigh : i ≤ 2 ^ 63 - 1) (number : Option Number)
    (text : Option String) :
    (∃ value, Number.ofLiteral? literal.toList = some value ∧
      ReadsAs (toCss ⟨.dimension, some unit, number, some literal⟩)
        ⟨.dimension, some unit, some value, some literal⟩) ∧
    ReadsAs (toCss ⟨.dimension, some unit, some (.integer i), none⟩)
      ⟨.dimension, some unit, some (.integer i), some (toString i)⟩ ∧
    ReadsAs (toCss ⟨.percentage, text, some (.integer i), none⟩)
      ⟨.percentage, some "%", some (.integer i), some (toString i)⟩ ∧
    ReadsAs (toCss ⟨.number, text, some (.integer i), none⟩)
      ⟨.number, none, some (.integer i), some (toString i)⟩ := by
  have hvalid := Numeral.ofInt_valid i
  refine ⟨readsAs_of_literal hliteral hunit number, ?_, ?_, ?_⟩
  · have hne : unit.toList ≠ [] := by simpa using hunit
    have hread := readsAs_dimension hvalid hne
    rwa [ofInt_lexeme hlow hhigh, String.ofList_toList] at hread
  · have hread := readsAs_percentage hvalid
    rwa [ofInt_lexeme hlow hhigh] at hread
  · have hread := readsAs_number hvalid
    rwa [ofInt_lexeme hlow hhigh] at hread

/-- A unit that would be an exponent, behind a literal and behind the least integer. -/
theorem quantities_read_back_of_exponent :
    "5".toList ∈ Literal.pattern.matches' ∧
      toCss ⟨.dimension, some "e3", none, some "5"⟩ = "5\\65 3" ∧
      (∃ value, Number.ofLiteral? "5".toList = some value ∧
        ReadsAs "5\\65 3" ⟨.dimension, some "e3", some value, some "5"⟩) ∧
      ReadsAs "-9223372036854775808\\65 3"
        ⟨.dimension, some "e3", some (.integer (-2 ^ 63)), some "-9223372036854775808"⟩ := by
  have hliteral : "5".toList ∈ Literal.pattern.matches' := by decide +kernel
  have hunit : "e3" ≠ "" := by decide
  have hread := quantities_read_back hliteral hunit (i := -2 ^ 63) (by decide) (by decide) none none
  exact ⟨hliteral, rfl, hread.1, hread.2.1⟩

end Lexeme
end CssLex
