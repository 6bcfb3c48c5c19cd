import CssLex.Production.Escape

/-!
Names and identifiers. A name is a run of name characters and escapes; an identifier is a name
that starts with a letter, an underscore or an escape, after one hyphen at most, or that starts
with two hyphens.
-/

namespace CssLex
namespace Production

open Scan Scanner

/-- The loop over the characters and escapes of a class. -/
def units (accept : Char → Bool) : Loop Char Unit := .repeating (unit accept) (unit_spends accept)

/-- Reads the longest run of name characters and escapes, which may be empty. -/
def nameRun : Scan (List Char) := do
  let (run, _) ← (units isNameChar).run
  pure run

/-- Reads a name, or nothing. -/
def name : Scan (Option (List Char)) := do
  let run ← nameRun
  pure (if run = [] then none else some run)

/-- Reads the rest of an identifier after two hyphens, which are enough at the end of the input.
On failure the hyphens are handed back too. -/
def customName : Scan (Option (List Char)) := do
  match ← unit isNameChar with
  | some c => do
    let run ← nameRun
    pure (some ('-' :: '-' :: c :: run))
  | none => do
    let following ← next
    pushBack following
    if following.isNone then pure (some ['-', '-'])
    else do
      pushBack (some '-')
      pushBack (some '-')
      pure none

/-- Reads an identifier, or nothing. -/
def ident : Scan (Option (List Char)) := do
  if ← eat '-' then
    if ← eat '-' then customName
    else
      match ← unit isNameStart with
      | some c => do
        let run ← nameRun
        pure (some ('-' :: c :: run))
      | none => do
        pushBack (some '-')
        pure none
  else
    match ← unit isNameStart with
    | some c => do
      let run ← nameRun
      pure (some (c :: run))
    | none => pure none

/-- What a production uses up at least: one character if it succeeds. -/
def leastCost {α : Type} (result : Option α) : Int := if result.isSome then 1 else 0

@[simp] theorem leastCost_none {α : Type} : leastCost (none : Option α) = 0 := rfl

@[simp] theorem leastCost_some {α : Type} (a : α) : leastCost (some a) = 1 := rfl

theorem nameRun_spends : Spends nameRun fun run => run.length :=
  (units isNameChar).run_spends.bind fun _ => .pure (by simp)

theorem name_spends : Spends name leastCost := by
  refine nameRun_spends.bind fun run => .pure ?_
  cases run with
  | nil => exact Int.le_refl 0
  | cons c run =>
    simp only [reduceCtorEq, if_false, leastCost_some, List.length_cons]
    omega

theorem customName_spends : Spends customName fun result => 2 * leastCost result - 2 := by
  refine (unit_spends isNameChar).bind fun c => ?_
  cases c with
  | some c =>
    exact nameRun_spends.bind fun _ => .pure (by simp only [leastCost_some, costOf_some]; omega)
  | none =>
    refine next_spends.bind fun following => (pushBack_spends following).bind fun _ => ?_
    split
    · exact .pure (by simp)
    · exact (pushBack_spends _).bind fun _ => (pushBack_spends _).bind fun _ => .pure (by simp)

theorem ident_spends : Spends ident leastCost := by
  refine (eat_spends '-').bind fun eaten => ?_
  cases eaten with
  | true =>
    refine (eat_spends '-').bind fun again => ?_
    cases again with
    | true =>
      refine customName_spends.mono fun result => ?_
      cases result <;> simp
    | false =>
      refine (unit_spends isNameStart).bind fun c => ?_
      cases c with
      | some c =>
        exact nameRun_spends.bind fun _ =>
          .pure (by simp only [leastCost_some, costOf_some, if_true]; omega)
      | none => exact (pushBack_spends _).bind fun _ => .pure (by simp)
  | false =>
    refine (unit_spends isNameStart).bind fun c => ?_
    cases c with
    | some c => exact nameRun_spends.bind fun _ => .pure (by simp)
    | none => exact .pure (by simp)

/-- A poised scanner stays so when it starts with no identifier. -/
theorem poised_ident {s s' : Scanner} (hs : s.Poised) (h : ident s = .ok none s') :
    s'.Poised := by
  obtain ⟨eaten, s₁, h₁, h⟩ := bind_eq_ok.mp h
  cases eaten with
  | true =>
    obtain ⟨again, s₂, _, h⟩ := bind_eq_ok.mp h
    cases again with
    | true =>
      obtain ⟨c, s₃, _, h⟩ := bind_eq_ok.mp h
      cases c with
      | some c =>
        obtain ⟨_, _, _, h⟩ := bind_eq_ok.mp h
        simp [pure_eq_ok] at h
      | none =>
        obtain ⟨following, s₄, _, h⟩ := bind_eq_ok.mp h
        obtain ⟨_, _, _, h⟩ := bind_eq_ok.mp h
        split at h
        · simp [pure_eq_ok] at h
        · obtain ⟨_, _, _, h⟩ := bind_eq_ok.mp h
          obtain ⟨_, _, h₅, h⟩ := bind_eq_ok.mp h
          obtain ⟨_, rfl⟩ := pure_eq_ok.mp h
          exact poised_pushBack h₅
    | false =>
      obtain ⟨c, s₃, _, h⟩ := bind_eq_ok.mp h
      cases c with
      | some c =>
        obtain ⟨_, _, _, h⟩ := bind_eq_ok.mp h
        simp [pure_eq_ok] at h
      | none =>
        obtain ⟨_, _, h₄, h⟩ := bind_eq_ok.mp h
        obtain ⟨_, rfl⟩ := pure_eq_ok.mp h
        exact poised_pushBack h₄
  | false =>
    obtain ⟨c, s₂, h₂, h⟩ := bind_eq_ok.mp h
    cases c with
    | some c =>
      obtain ⟨_, _, _, h⟩ := bind_eq_ok.mp h
      simp [pure_eq_ok] at h
    | none =>
      obtain ⟨_, rfl⟩ := pure_eq_ok.mp h
      exact poised_unit (poised_eat hs h₁) h₂

end Production
end CssLex
