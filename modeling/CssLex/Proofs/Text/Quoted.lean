import Mathlib.Tactic.SplitIfs
import CssLex.Proofs.Serialize.ReadBack
import CssLex.Text.Quoted

/-! Quoted texts. A string of JSON tells its text and where it ends, and neither notation breaks a
line. -/

namespace CssLex

open Serialize

/-! ## Lines -/

/-- A text without line ends. -/
def Unbroken (text : List Char) : Prop := '\n' ∉ text ∧ '\r' ∉ text

instance (text : List Char) : Decidable (Unbroken text) := inferInstanceAs (Decidable (_ ∧ _))

@[simp] theorem unbroken_nil : Unbroken [] := by simp [Unbroken]

@[simp] theorem unbroken_cons {c : Char} {text : List Char} :
    Unbroken (c :: text) ↔ (c ≠ '\n' ∧ c ≠ '\r') ∧ Unbroken text := by
  simp only [Unbroken, List.mem_cons, not_or, ne_comm (a := c)]
  exact and_and_and_comm

@[simp] theorem unbroken_append {text text' : List Char} :
    Unbroken (text ++ text') ↔ Unbroken text ∧ Unbroken text' := by
  simp only [Unbroken, List.mem_append, not_or]
  exact and_and_and_comm

theorem unbroken_of_forall {text : List Char} (h : ∀ c ∈ text, c ≠ '\n' ∧ c ≠ '\r') :
    Unbroken text :=
  ⟨fun hmem => (h _ hmem).1 rfl, fun hmem => (h _ hmem).2 rfl⟩

theorem unbroken_flatMap {write : Char → List Char} (h : ∀ c, Unbroken (write c))
    (text : List Char) : Unbroken (text.flatMap write) := by
  induction text with
  | nil => exact unbroken_nil
  | cons c text ih => exact unbroken_append.mpr ⟨h c, ih⟩

theorem unbroken_lowerHex (n : Nat) : Unbroken (lowerHex n) := by
  refine unbroken_of_forall fun c hc => ?_
  have hdigit := isHexDigit_of_mem_lowerHex hc
  constructor <;> rintro rfl <;> cases hdigit

theorem unbroken_replicate {c : Char} (h : c ≠ '\n' ∧ c ≠ '\r') (n : Nat) :
    Unbroken (List.replicate n c) :=
  unbroken_of_forall fun d hd => by rwa [List.eq_of_mem_replicate hd]

theorem unbroken_visibleQuoted {quote : Char} (h : quote ≠ '\n' ∧ quote ≠ '\r')
    (text : List Char) : Unbroken (visibleQuoted quote text) := by
  have hchar (c : Char) : Unbroken (visibleChar quote c) := by
    unfold visibleChar
    split_ifs <;> simp_all [unbroken_lowerHex]
  simp [visibleQuoted, h, unbroken_flatMap hchar]

theorem unbroken_jsonQuoted (text : List Char) : Unbroken (jsonQuoted text) := by
  have hchar (c : Char) : Unbroken (jsonChar c) := by
    unfold jsonChar
    split_ifs with hmark
    · rcases (by simpa using hmark : c = '"' ∨ c = '\\') with rfl | rfl <;> simp
    all_goals simp_all [unbroken_lowerHex, unbroken_replicate]
  simp [jsonQuoted, unbroken_flatMap hchar]

/-! ## Strings of JSON -/

/-- Reads a character inside a string of JSON; there is none at the mark that ends the string. -/
def readJsonChar? : List Char → Option (Char × List Char)
  | [] | '"' :: _ => none
  | '\\' :: 'b' :: rest => some ('\x08', rest)
  | '\\' :: 'f' :: rest => some ('\x0c', rest)
  | '\\' :: 'n' :: rest => some ('\n', rest)
  | '\\' :: 'r' :: rest => some ('\r', rest)
  | '\\' :: 't' :: rest => some ('\t', rest)
  | '\\' :: 'u' :: a :: b :: c :: d :: rest =>
    some (Char.ofNat (Production.hexNumber [a, b, c, d]), rest)
  | '\\' :: c :: rest => some (c, rest)
  | c :: rest => some (c, rest)

/-- A control character is written by four digits. -/
theorem controlDigits : ∀ n < 32, List.replicate (4 - (lowerHex n).length) '0' ++ lowerHex n =
    ['0', '0', Nat.digitChar (n / 16), Nat.digitChar (n % 16)] := by
  decide

theorem hexNumber_controlDigits : ∀ n < 32,
    Production.hexNumber ['0', '0', Nat.digitChar (n / 16), Nat.digitChar (n % 16)] = n := by
  decide

theorem readJsonChar?_jsonChar (c : Char) (rest : List Char) :
    readJsonChar? (jsonChar c ++ rest) = some (c, rest) := by
  unfold jsonChar
  split_ifs with hmark hb hf hn hr ht hcontrol
  · rcases (by simpa using hmark : c = '"' ∨ c = '\\') with rfl | rfl <;> rfl
  · rw [hb]; rfl
  · rw [hf]; rfl
  · rw [hn]; rfl
  · rw [hr]; rfl
  · rw [ht]; rfl
  · -- the reader takes four digits behind the mark, however many of them are zeros in front
    have hlt : c.toNat < 32 := hcontrol
    rw [List.append_assoc, List.append_assoc, ← List.append_assoc (List.replicate ..),
      controlDigits _ hlt]
    change some (Char.ofNat (Production.hexNumber _), rest) = _
    rw [hexNumber_controlDigits _ hlt, Char.ofNat_toNat]
  · simp only [Bool.or_eq_true, decide_eq_true_eq, not_or] at hmark
    rw [List.singleton_append]
    unfold readJsonChar?
    split <;> simp_all

theorem flatMap_jsonChar_inj {text text' rest rest' : List Char}
    (h : text.flatMap jsonChar ++ '"' :: rest = text'.flatMap jsonChar ++ '"' :: rest') :
    text = text' ∧ rest = rest' := by
  have hread {c : Char} {text rest rest' : List Char}
      (h : '"' :: rest = (c :: text).flatMap jsonChar ++ rest') : False := by
    have hchar := readJsonChar?_jsonChar c (text.flatMap jsonChar ++ rest')
    rw [← List.append_assoc, ← List.flatMap_cons, ← h] at hchar
    cases hchar
  induction text generalizing text' with
  | nil =>
      cases text' with
      | nil => exact ⟨rfl, (List.cons.inj h).2⟩
      | cons c' text' => exact (hread h).elim
  | cons c text ih =>
      cases text' with
      | nil => exact (hread h.symm).elim
      | cons c' text' =>
          have hchar := readJsonChar?_jsonChar c (text.flatMap jsonChar ++ '"' :: rest)
          rw [← List.append_assoc, ← List.flatMap_cons, h, List.flatMap_cons, List.append_assoc,
            readJsonChar?_jsonChar] at hchar
          obtain ⟨rfl, hbehind⟩ := Prod.mk.inj (Option.some.inj hchar)
          obtain ⟨rfl, rfl⟩ := ih hbehind.symm
          exact ⟨rfl, rfl⟩

/-- A string of JSON tells its text and where it ends. -/
theorem jsonQuoted_append_inj {text text' rest rest' : List Char}
    (h : jsonQuoted text ++ rest = jsonQuoted text' ++ rest') : text = text' ∧ rest = rest' := by
  simp only [jsonQuoted, List.cons_append, List.append_assoc] at h
  exact flatMap_jsonChar_inj (List.cons.inj h).2

end CssLex
