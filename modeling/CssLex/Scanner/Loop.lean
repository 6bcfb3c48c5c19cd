import CssLex.Scanner.Spending

/-!
Loops of a scan. A turn of a loop either yields an item or ends the loop, and a turn that yields
uses up at least one character, so every loop ends.
-/

namespace CssLex

/-- What one turn of a loop comes to. -/
inductive Turn (α β : Type) where
  | more (item : α)
  | stop (last : β)

/-- A turn that yields an item has to use up a character. -/
def Turn.cost {α β : Type} : Turn α β → Int
  | more _ => 1
  | stop _ => 0

/-- A scan that is repeated until it stops. -/
structure Loop (α β : Type) where
  turn : Scan (Turn α β)
  spends : Scan.Spends turn Turn.cost

namespace Loop

variable {α β : Type}

/-- Runs a loop that has yielded the items of `read`, the last one in front. -/
def runFrom (loop : Loop α β) (read : List α) : Scan (List α × β) := fun s =>
  match h : loop.turn s with
  | .error e s' => .error e s'
  | .ok (.stop last) s' => .ok (read.reverse, last) s'
  | .ok (.more item) s' =>
    have : s'.remaining < s.remaining := by
      have := loop.spends s _ s' h
      simp only [Turn.cost] at this
      omega
    loop.runFrom (item :: read) s'
termination_by s => s.remaining

/-- The items of a loop in order, and how it ended. -/
def run (loop : Loop α β) : Scan (List α × β) := loop.runFrom []

/-- The loop that repeats a reader until it declines. -/
def repeating (reader : Scan (Option α))
    (h : Scan.Spends reader fun item => if item.isSome then 1 else 0) : Loop α Unit where
  turn := do
    match ← reader with
    | some item => pure (.more item)
    | none => pure (.stop ())
  spends := by
    refine h.bind fun item => ?_
    cases item with
    | none => exact .pure (by simp [Turn.cost])
    | some item => exact .pure (by simp [Turn.cost])

theorem runFrom_spends (loop : Loop α β) (read : List α) {s s' : Scanner} {result : List α × β}
    (h : loop.runFrom read s = .ok result s') :
    s'.remaining + result.1.length ≤ s.remaining + read.length := by
  fun_induction runFrom loop read s with
  | case1 => cases h
  | case2 read s last s₁ h₁ =>
    cases h
    have := loop.spends s _ _ h₁
    simp only [Turn.cost] at this
    simp
    omega
  | case3 read s item s₁ h₁ _ ih =>
    have := ih h
    have := loop.spends s _ _ h₁
    simp only [Turn.cost] at this
    simp only [List.length_cons] at *
    omega

/-- A loop uses up at least one character for each item. -/
theorem run_spends (loop : Loop α β) : Scan.Spends loop.run fun result => result.1.length := by
  intro s result s' h
  have := runFrom_spends loop [] h
  simp only [List.length_nil] at this ⊢
  omega

/-- A loop that yields nothing makes one turn. -/
theorem turn_of_run_nil {loop : Loop α β} {s s' : Scanner} {last : β}
    (h : loop.run s = .ok ([], last) s') : loop.turn s = .ok (.stop last) s' := by
  unfold run at h
  rw [runFrom] at h
  split at h
  · cases h
  · next h₁ => cases h; exact h₁
  · next item s₁ h₁ =>
    have := runFrom_spends loop [item] h
    exfalso
    suffices ∀ (read : List α) (s s' : Scanner) (result : List α × β), 0 < read.length →
        loop.runFrom read s = .ok result s' → 0 < result.1.length by
      simpa using this [item] s₁ s' _ (by simp) h
    intro read s s' result hread hrun
    fun_induction runFrom loop read s with
    | case1 => cases hrun
    | case2 => cases hrun; simpa using hread
    | case3 read s item s₁ h₁ _ ih => exact ih (by simp) hrun

end Loop
end CssLex
