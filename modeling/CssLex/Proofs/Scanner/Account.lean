import CssLex.Proofs.Scanner.Behind
import CssLex.Proofs.Scanner.Pairing
import CssLex.Proofs.Scanner.Upcoming

/-! Where a scanner over a failing stream stands. The characters that it has read and not handed
back, and those that it has handed back, are together the preprocessed characters that the stream
has delivered. So a read that fails finds nothing handed back, and an offset and a line that count
all that was delivered. -/

namespace CssLex.Scanner

open Outcomes Scan

/-- A scanner over a stream has these entries behind it, and accounts for all that was delivered. -/
structure Account (capacity : Nat) (script : List Delivery) (history : List (Option Char))
    (s : Scanner) : Prop where
  within : s.source.Within capacity script
  delivered : Delivered (Source.ofDeliveries capacity script).outcomes
    (charsOf (history.reverse ++ s.deferred)) s.source s.afterReturn
  behind : s.Behind 0 0 history

/-- A scanner where a read of its stream has failed. Nothing is handed back, offset and line count
what was delivered, and the source stands behind the failure. -/
structure Stopped (capacity : Nat) (script : List Delivery) (reason : String) (s : Scanner) :
    Prop where
  account : ∃ history, s.Account capacity script history
  stopped : ∃ before after, .failed reason :: after <:+ script ∧
    (Source.ofDeliveries capacity script).outcomes =
      before ++ .error reason :: (Source.ofDeliveries capacity after).outcomes ∧
    s = {
      source := .ofDeliveries capacity after
      position := (normalize (chars before)).length
      line := 1 + (normalize (chars before)).count '\n'
      afterReturn := (chars before).getLast? == some '\r' }

variable {capacity : Nat} {script : List Delivery} {history : List (Option Char)} {s : Scanner}

theorem account_start (capacity : Nat) (script : List Delivery) :
    Account capacity script [] { source := .ofDeliveries capacity script } :=
  ⟨Source.within_stream _, ⟨[], rfl, rfl, .inr rfl⟩, rfl, rfl, Nat.zero_le _,
    Nat.le_of_ble_eq_true rfl⟩

theorem Account.readPreprocessed (h : s.Account capacity script history)
    (hdeferred : s.deferred = []) :
    match readPreprocessed s with
    | .ok entry s' => ∃ source afterReturn, s' = { s with source, afterReturn } ∧
        source.Within capacity script ∧
        Delivered (Source.ofDeliveries capacity script).outcomes
          (charsOf ((entry :: history).reverse ++ s.deferred)) source afterReturn
    | .error e s' => ∃ reason, e = .unreadable reason ∧ s'.Stopped capacity script reason := by
  obtain ⟨source, afterReturn, hsettles⟩ := exists_settles s
  have hdelivered := h.delivered.settles hsettles
  have hwithin := (h.within.settles hsettles).read
  rw [hsettles.readPreprocessed]
  cases hread : source.read with
  | error reason source' =>
      rw [hread] at hwithin
      obtain ⟨-, after, hsuffix, rfl⟩ := hwithin
      obtain ⟨hdelivered', before, hall, htext, hreturn⟩ := hdelivered.failure hread
      have hhistory : normalize (chars before) = (charsOf history).reverse := by
        rw [htext, hdeferred, List.append_nil, charsOf, List.filterMap_reverse]
        rfl
      have hposition := h.behind.position
      have hline := h.behind.line
      rw [Nat.zero_add] at hposition
      refine ⟨reason, rfl, ⟨history, ?_, hdelivered', h.behind.congr rfl rfl⟩, before, after,
        hsuffix, hall, ?_⟩
      · exact (Source.within_stream _).of_suffix ((List.suffix_cons _ _).trans hsuffix)
      · rw [hhistory, List.length_reverse, List.count_reverse, ← hposition, ← hline, ← hreturn,
          ← hdeferred]
  | ok c source' =>
      rw [hread] at hwithin
      cases c with
      | none =>
          refine ⟨source', _, rfl, hwithin.2.2, ?_⟩
          have hended := hdelivered.ended hread (none == some '\r')
          simpa [charsOf] using hended
      | some c =>
          refine ⟨source', _, rfl, hwithin.2, ?_⟩
          have hchar := hdelivered.char hread fun hc => hsettles.not_lineFeed (hc ▸ hread)
          simpa [charsOf, hdeferred] using hchar

theorem Account.take (h : s.Account capacity script history) :
    match take s with
    | .ok entry s' => s'.Behind 0 0 history ∧ s'.source.Within capacity script ∧
        Delivered (Source.ofDeliveries capacity script).outcomes
          (charsOf ((entry :: history).reverse ++ s'.deferred)) s'.source s'.afterReturn
    | .error e s' => ∃ reason, e = .unreadable reason ∧ s'.Stopped capacity script reason := by
  cases hdeferred : s.deferred with
  | nil =>
      have hread := h.readPreprocessed hdeferred
      rw [take_of_deferred_nil hdeferred]
      cases hresult : Scanner.readPreprocessed s with
      | error e s' =>
          rw [hresult] at hread
          exact hread
      | ok entry s' =>
          rw [hresult] at hread
          obtain ⟨source, afterReturn, rfl, hwithin, hdelivered⟩ := hread
          exact ⟨h.behind.congr rfl rfl, hwithin, hdelivered⟩
  | cons entry deferred =>
      have hdelivered := h.delivered
      rw [hdeferred] at hdelivered
      simp only [Scanner.take, hdeferred]
      refine ⟨h.behind.congr rfl rfl, h.within, ?_⟩
      rw [List.reverse_cons, List.append_assoc, List.singleton_append]
      exact hdelivered

/-- Reading an entry adds it to the history. It fails where the stream does, or where offset or
line cannot be counted. -/
theorem Account.next (h : s.Account capacity script history) :
    match next s with
    | .ok entry s' => s'.Account capacity script (entry :: history)
    | .error e s' =>
        e = .tooLong ∨ ∃ reason, e = .unreadable reason ∧ s'.Stopped capacity script reason := by
  have htake := h.take
  cases hresult : Scanner.take s with
  | error e s' =>
      rw [hresult] at htake
      rw [next_of_take_error hresult]
      exact .inr htake
  | ok entry s' =>
      rw [hresult] at htake
      obtain ⟨hbehind, hwithin, hdelivered⟩ := htake
      cases entry with
      | none =>
          rw [next_of_take_none hresult]
          exact ⟨hwithin, hdelivered, hbehind.none⟩
      | some c =>
          by_cases hfull : s'.Full c
          · obtain ⟨s'', hnext⟩ := next_of_full hresult hfull
            rw [hnext]
            exact .inl rfl
          · rw [next_of_room hresult hfull]
            exact ⟨hwithin, hdelivered, hbehind.advanced hfull⟩

/-- The last entry of the history can be handed back. -/
theorem Account.pushBack {entry : Option Char}
    (h : s.Account capacity script (entry :: history)) :
    ∃ s', pushBack entry s = .ok () s' ∧ s'.Account capacity script history := by
  obtain ⟨position, line, hback, hbehind⟩ := h.behind.pushBack
  have hdelivered := h.delivered
  rw [List.reverse_cons, List.append_assoc, List.singleton_append] at hdelivered
  exact ⟨_, hback, h.within, hdelivered, hbehind⟩

/-- A scanner over a stream beside itself. -/
def accounting (capacity : Nat) (script : List Delivery) : Pairing where
  Along history s f := s = f ∧ s.Account capacity script history
  Failed e s _ := e = .tooLong ∨ ∃ reason, e = .unreadable reason ∧ s.Stopped capacity script reason
  Alone _ _ := False

theorem accounting_inStep (capacity : Nat) (script : List Delivery) :
    (accounting capacity script).InStep where
  next := by
    rintro history s _ ⟨rfl, h⟩
    have hnext := h.next
    cases hresult : Scanner.next s with
    | error e s' =>
        rw [hresult] at hnext
        exact .failed hnext
    | ok entry s' =>
        rw [hresult] at hnext
        exact .ok rfl ⟨rfl, hnext⟩
  pushBack := by
    rintro entry history s _ ⟨rfl, h⟩
    obtain ⟨s', hback, h'⟩ := h.pushBack
    rw [hback]
    exact .ok rfl ⟨rfl, h'⟩

/-- What goes in step accounts for what was delivered. -/
theorem Account.of_roams {α : Type} {p : Scan α} (hp : Roams p)
    (h : s.Account capacity script history) :
    match p s with
    | .ok _ s' => ∃ history, s'.Account capacity script history
    | .error e s' =>
        e = .tooLong ∨ ∃ reason, e = .unreadable reason ∧ s'.Stopped capacity script reason := by
  have hcomes := hp [] (accounting capacity script) (accounting_inStep capacity script) history s s
    ⟨rfl, h⟩
  cases hresult : p s with
  | error e s' =>
      rw [hresult] at hcomes
      cases hcomes with
      | failed hfailed => exact hfailed
      | alone halone => exact halone.elim
  | ok a s' =>
      rw [hresult] at hcomes
      cases hcomes with
      | ok _ halong => exact ⟨_, halong.2⟩

end CssLex.Scanner
