import CssLex.Number

/-! The characters of written numbers. There are no marks among them that would end or part a value
in JSON, and no line ends. -/

namespace CssLex

/-- The characters that a written number may have. -/
def isScalarChar (c : Char) : Bool := c.isAlphanum || c ∈ ['+', '-', '.']

/-- A text of such characters. -/
def Scalar (text : List Char) : Prop := ∀ c ∈ text, isScalarChar c = true

instance (text : List Char) : Decidable (Scalar text) := List.decidableBAll _ text

theorem scalar_append {text text' : List Char} :
    Scalar (text ++ text') ↔ Scalar text ∧ Scalar text' := by
  simp only [Scalar, List.mem_append, or_imp, forall_and]

theorem scalar_cons {c : Char} {text : List Char} :
    Scalar (c :: text) ↔ isScalarChar c = true ∧ Scalar text :=
  List.forall_mem_cons

theorem scalar_replicate {c : Char} (h : isScalarChar c = true) (n : Nat) :
    Scalar (List.replicate n c) := by
  intro d hd
  rwa [List.eq_of_mem_replicate hd]

theorem scalar_nat (n : Nat) : Scalar (toString n).toList := by
  intro c hc
  rw [Nat.toString_eq_repr, Nat.toList_repr] at hc
  have hdigit := Nat.isDigit_of_mem_toDigits (by decide) (by decide) hc
  simp [isScalarChar, Char.isAlphanum, hdigit]

theorem scalar_int (n : Int) : Scalar (toString n).toList := by
  cases n with
  | ofNat n => exact scalar_nat n
  | negSucc n =>
      change Scalar ("-" ++ toString (n + 1)).toList
      rw [String.toList_append, scalar_append]
      exact ⟨by decide, scalar_nat _⟩

namespace FloatStyle

theorem scalar_positional {digits : List Char} (h : Scalar digits) (point : Int) :
    Scalar (positional digits point) := by
  have hzeros := scalar_replicate (show isScalarChar '0' = true by decide)
  unfold positional
  split
  · simp only [scalar_cons, scalar_append]
    exact ⟨by decide, by decide, hzeros _, h⟩
  · simp only [scalar_cons, scalar_append]
    have htake : Scalar (digits.take point.toNat) := fun c hc => h c (List.mem_of_mem_take hc)
    have hdrop : Scalar (digits.drop point.toNat) := fun c hc => h c (List.mem_of_mem_drop hc)
    refine ⟨⟨htake, hzeros _⟩, by decide, ?_⟩
    split
    · decide
    · exact hdrop

theorem scalar_scientific {style : FloatStyle} (hplus : Scalar style.exponentPlus.toList)
    {digits : List Char} (h : Scalar digits) (exponent : Int) :
    Scalar (style.scientific digits exponent) := by
  unfold scientific
  simp only [scalar_append]
  refine ⟨⟨⟨⟨fun c hc => h c (List.mem_of_mem_take hc), ?_⟩, by decide⟩, ?_⟩, scalar_nat _⟩
  · split
    · exact fun c hc => absurd hc List.not_mem_nil
    · exact scalar_cons.mpr ⟨by decide, fun c hc => h c (List.mem_of_mem_drop hc)⟩
  · split
    · decide
    · exact hplus

theorem scalar_writeDecimal {style : FloatStyle} (hplus : Scalar style.exponentPlus.toList)
    (d : ShortDecimal) : Scalar (style.writeDecimal d) := by
  simp only [writeDecimal]
  split
  · exact scalar_positional (scalar_nat _) _
  · exact scalar_scientific hplus (scalar_nat _) _

theorem scalar_write {style : FloatStyle} (hplus : Scalar style.exponentPlus.toList) (x : Float) :
    Scalar (style.write x).toList := by
  have hdigits (m : Nat) (q : Int) :
      Scalar (if m = 0 then ['0', '.', '0'] else
        style.writeDecimal (ShortDecimal.ofDouble style.tie m q)) := by
    split
    · decide
    · exact scalar_writeDecimal hplus _
  simp only [write, String.toList_ofList]
  split
  · exact scalar_cons.mpr ⟨by decide, hdigits _ _⟩
  · exact hdigits _ _

end FloatStyle

namespace Number

theorem scalar_render (n : Number) : Scalar n.render.toList := by
  have hwrite (x : Float) : Scalar (FloatStyle.display.write x).toList :=
    FloatStyle.scalar_write (by decide) x
  cases n with
  | integer n => exact scalar_int n
  | float x =>
      simp only [render]
      split
      · exact hwrite x
      · rw [String.toList_append, scalar_append]
        refine ⟨?_, hwrite _⟩
        split <;> decide

theorem scalar_renderJson (n : Number) : Scalar n.renderJson.toList := by
  cases n with
  | integer n => exact scalar_int n
  | float x =>
      simp only [renderJson]
      split
      · exact FloatStyle.scalar_write (by decide) x
      · decide

end Number
end CssLex
