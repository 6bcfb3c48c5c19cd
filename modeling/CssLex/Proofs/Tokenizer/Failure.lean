import CssLex.Proofs.Production.Tracks
import CssLex.Proofs.Scanner.Failure
import CssLex.Proofs.Tokenizer.Cursor

/-! What a tokenizer fails with. Pulling tokens fails only where reading characters does, and
handing a token back fails only where there is none to replay or one is pending. -/

namespace CssLex

/-- The errors that come from handing back a token. -/
inductive LexError.OfReplay : LexError → Prop
  | replayPending : OfReplay .replayPending
  | nothingToReplay : OfReplay .nothingToReplay

theorem FailsWith.answers {σ : Type} {E : LexError → Prop}
    {call : Call → EStateM LexError σ (Option Token)} (h : ∀ c, FailsWith E (call c))
    (calls : List Call) (s : σ) {e : LexError} (hmem : .error e ∈ (answers call calls s).1) :
    E e := by
  induction calls generalizing s with
  | nil => cases hmem
  | cons c calls ih =>
      unfold CssLex.answers at hmem
      cases hc : call c s with
      | ok answer s' =>
          rw [hc] at hmem
          rcases List.mem_cons.mp hmem with heq | hmem
          · cases heq
          · exact ih s' hmem
      | error e' s' =>
          rw [hc] at hmem
          rcases List.mem_cons.mp hmem with heq | hmem
          · cases heq
            exact h c _ _ _ hc
          · exact ih s' hmem

namespace Cursor

theorem pushBack_fails : FailsWith LexError.OfReplay pushBack := by
  intro c e c' h
  unfold pushBack at h
  split at h
  · cases h
    exact .replayPending
  · split at h
    · cases h
      exact .nothingToReplay
    · cases h

/-- A cursor fails only where a token cannot be handed back. -/
theorem call_fails (T : Listing) (c : Call) : FailsWith LexError.OfReplay (call T c) := by
  cases c with
  | next => exact fun _ _ _ h => nomatch h
  | fetch => exact fun _ _ _ h => nomatch h
  | pushBack => exact pushBack_fails.bind fun _ => .pure none

end Cursor

namespace Tokenizer

theorem scanToken_fails : FailsWith LexError.OfReading scanToken := by
  intro t e t' h
  unfold scanToken at h
  split at h
  · next heq =>
    cases h
    exact Production.lexeme_roams.fails _ _ _ heq
  · cases h

theorem fetch_fails : FailsWith LexError.OfReading fetch := by
  intro t e t' h
  unfold fetch at h
  split at h
  · cases h
  · exact scanToken_fails _ _ _ h

theorem next_fails : FailsWith LexError.OfReading next := by
  intro t e t' h
  fun_induction next t with
  | case1 t e₁ t₁ hfetch =>
      cases h
      exact fetch_fails _ _ _ hfetch
  | case2 t token t₁ _ _ _ ih => exact ih h
  | case3 t token t₁ => cases h

theorem pull_fails (skipping : Bool) : FailsWith LexError.OfReading (pull skipping) := by
  unfold pull
  split
  · exact next_fails
  · exact fetch_fails

theorem pushBack_fails : FailsWith LexError.OfReplay pushBack := by
  intro t e t' h
  unfold pushBack at h
  split at h
  · cases h
    exact .replayPending
  · split at h
    · cases h
      exact .nothingToReplay
    · cases h

theorem call_fails (c : Call) : FailsWith (fun e => e.OfReading ∨ e.OfReplay) (call c) := by
  cases c with
  | next => exact (next_fails.map some).mono fun _ => .inl
  | fetch => exact (fetch_fails.map some).mono fun _ => .inl
  | pushBack => exact (pushBack_fails.bind fun _ => .pure none).mono fun _ => .inr

theorem collectFrom_fails {skipping : Bool} {read : List Token} {t : Tokenizer} {e : LexError}
    (h : collectFrom skipping read t = .error e) : e.OfReading := by
  fun_induction collectFrom skipping read t with
  | case1 read t e₁ t₁ hpull =>
      cases h
      exact pull_fails skipping _ _ _ hpull
  | case2 => cases h
  | case3 read t token t₁ _ _ _ ih => exact ih h

end Tokenizer
end CssLex
