import CssLex.Proofs.Scanner.Reached
import CssLex.Proofs.Tokenizer.Failure

/-! The scanners of a tokenizer. Productions read entries and hand back only what was read, the last
entry first, so they lead from a reached scanner to reached ones. The scanner of a tokenizer is
reached after any calls, and so is that of a production where another one calls it. -/

namespace CssLex

namespace Scanner

open Scan Production

/-! ## Scans -/

/-- A scanner beside itself, as long as it is reached. -/
def reaching (source : Source) : Pairing where
  Along history s f := s = f ∧ Reached source history s
  Failed _ _ _ := True
  Alone _ _ := False

theorem reaching_inStep (source : Source) : (reaching source).InStep where
  next := by
    rintro history s _ ⟨rfl, h⟩
    cases hresult : Scanner.next s with
    | error e s' => exact .failed trivial
    | ok entry s' => exact .ok rfl ⟨rfl, .next h hresult⟩
  pushBack := by
    rintro entry history s _ ⟨rfl, h⟩
    cases entry with
    | none => exact .ok rfl ⟨rfl, .pushBack h rfl⟩
    | some c => exact .ok rfl ⟨rfl, .pushBack h rfl⟩

variable {α : Type} {source : Source} {history : List (Option Char)} {s s' : Scanner}

/-- A scan that goes in step leads from a reached scanner to a reached one. -/
theorem Reached.of_tracks {p : Scan α} {left : α → List (Option Char) → Prop} {a : α}
    (h : Reached source history s) (hp : Tracks [] p left) (hok : p s = .ok a s') :
    ∃ kept, left a kept ∧ Reached source (kept ++ history) s' := by
  have hcomes := hp (reaching source) (reaching_inStep source) history s s ⟨rfl, h⟩
  rw [hok] at hcomes
  cases hcomes with
  | ok hleft halong => exact ⟨_, hleft, halong.2⟩

theorem Reached.of_roams {p : Scan α} {a : α} (h : Reached source history s) (hp : Roams p)
    (hok : p s = .ok a s') : ∃ kept, Reached source (kept ++ history) s' := by
  obtain ⟨kept, -, hs'⟩ := Reached.of_tracks h (hp []) hok
  exact ⟨kept, hs'⟩

/-- Where a scan gives nothing, the history is what it was. -/
theorem Reached.of_declines {p : Scan (Option α)} (h : Reached source history s) (hp : Declines p)
    (hok : p s = .ok none s') : Reached source history s' := by
  obtain ⟨kept, hkept, hs'⟩ := Reached.of_tracks h (hp []) hok
  rwa [hkept rfl] at hs'

theorem Reached.eat {c : Char} {found : Bool} (h : Reached source history s)
    (hok : Scanner.eat c s = .ok found s') :
    Reached source (if found then some c :: history else history) s' := by
  obtain ⟨_, rfl, hs'⟩ := Reached.of_tracks h (eat_tracks c) hok
  cases found with
  | false => exact hs'
  | true => exact hs'

/-! ## Productions that call one another -/

/-- Behind its first character, and before it where it was handed back, a lexeme goes on from a
reached scanner. -/
theorem Reached.behind_first (h : Reached source history s) {c : Char} {s₁ : Scanner}
    (hnext : Scanner.next s = .ok (some c) s₁) :
    Reached source (some c :: history) s₁ ∧
      ∀ s₂, Scanner.pushBack (some c) s₁ = .ok () s₂ → Reached source history s₂ :=
  ⟨.next h hnext, fun _ => .pushBack (.next h hnext)⟩

/-- What starts with a hyphen is tried as a mark, as a number and as a name, one after another. -/
theorem Reached.behind_tries (h : Reached source history s) :
    (∀ s₁, cdcRest s = .ok false s₁ → Reached source history s₁) ∧
      ∀ s₁, numeric s = .ok none s₁ → Reached source history s₁ := by
  refine ⟨fun s₁ hrest => ?_, fun s₁ => h.of_declines numeric_declines⟩
  obtain ⟨_, hkept, hs₁⟩ := Reached.of_tracks h cdcRest_tracks hrest
  rwa [hkept rfl] at hs₁

/-- The unit of a number is tried behind the number. -/
theorem Reached.behind_number (h : Reached source history s) {found : Option (Number × List Char)}
    {s₁ s₂ : Scanner} (hnum : num s = .ok found s₁)
    (hpercent : Scanner.eat '%' s₁ = .ok false s₂) :
    ∃ kept, Reached source (kept ++ history) s₂ := by
  obtain ⟨kept, hs₁⟩ := h.of_roams num_declines.roams hnum
  exact ⟨kept, hs₁.eat hpercent⟩

/-- The first character of a name is tried behind up to two hyphens. -/
theorem Reached.behind_hyphens (h : Reached source history s) {second : Bool} {s₁ s₂ : Scanner}
    (hfirst : Scanner.eat '-' s = .ok true s₁) (hsecond : Scanner.eat '-' s₁ = .ok second s₂) :
    Reached source (some '-' :: history) s₁ ∧
      Reached source ((if second then [some '-'] else []) ++ some '-' :: history) s₂ := by
  have hs₁ : Reached source (some '-' :: history) s₁ := h.eat hfirst
  refine ⟨hs₁, ?_⟩
  cases second with
  | false => exact hs₁.eat hsecond
  | true => exact hs₁.eat hsecond

/-- The next character of a name or of a url is tried behind the others, and an escape where there
is no such character. -/
theorem Reached.behind_unit (h : Reached source history s) (accept : Char → Bool) :
    (∀ c s₁, unit accept s = .ok (some c) s₁ → ∃ kept, Reached source (kept ++ history) s₁) ∧
      ∀ s₁, takeIf accept s = .ok none s₁ → Reached source history s₁ :=
  ⟨fun _ _ => h.of_roams (unit_declines accept).roams,
    fun _ => h.of_declines (takeIf_declines accept)⟩

end Scanner

/-! ## Calls -/

namespace Tokenizer

open Scanner

/-- The scanner is one that reading the source and handing back lead to. -/
def Reaches (source : Source) (t : Tokenizer) : Prop :=
  ∃ history, Scanner.Reached source history t.scanner

variable {source : Source} {t : Tokenizer}

theorem Reaches.scanToken (h : t.Reaches source) {token : Token} {t' : Tokenizer}
    (hok : t.scanToken = .ok token t') : t'.Reaches source := by
  obtain ⟨history, hs⟩ := h
  unfold Tokenizer.scanToken at hok
  split at hok
  · cases hok
  · next hlexeme =>
    cases hok
    obtain ⟨kept, hs'⟩ := hs.of_roams Production.lexeme_roams hlexeme
    exact ⟨kept ++ history, hs'⟩

theorem Reaches.fetch (h : t.Reaches source) {token : Token} {t' : Tokenizer}
    (hok : t.fetch = .ok token t') : t'.Reaches source := by
  unfold Tokenizer.fetch at hok
  split at hok
  · cases hok
    exact h
  · exact Reaches.scanToken (t := { t with replaying := false }) h hok

theorem Reaches.next (h : t.Reaches source) {token : Token} {t' : Tokenizer}
    (hok : t.next = .ok token t') : t'.Reaches source := by
  fun_induction Tokenizer.next t with
  | case1 => cases hok
  | case2 t token₁ t₁ hfetch _ _ ih => exact ih (h.fetch hfetch) hok
  | case3 t token₁ t₁ hfetch _ =>
      cases hok
      exact h.fetch hfetch

theorem Reaches.pushBack (h : t.Reaches source) {t' : Tokenizer}
    (hok : t.pushBack = .ok () t') : t'.Reaches source := by
  unfold Tokenizer.pushBack at hok
  split at hok
  · cases hok
  · split at hok
    · cases hok
    · cases hok
      exact h

/-- A token that cannot be handed back leaves the tokenizer alone. -/
theorem eq_of_pushBack_fails {e : LexError} {t t' : Tokenizer} (h : t.pushBack = .error e t') :
    t' = t := by
  unfold Tokenizer.pushBack at h
  split at h
  · cases h
    rfl
  · split at h
    · cases h
      rfl
    · cases h

theorem exists_of_map_eq_ok {σ α β : Type} {p : EStateM LexError σ α} {f : α → β} {b : β}
    {s s' : σ} (h : (f <$> p) s = .ok b s') : ∃ a, p s = .ok a s' := by
  simp only [Functor.map, EStateM.map] at h
  split at h
  · next a s₁ heq =>
    cases h
    exact ⟨a, heq⟩
  · cases h

theorem Reaches.call (h : t.Reaches source) {c : Call} {answer : Option Token} {t' : Tokenizer}
    (hok : Tokenizer.call c t = .ok answer t') : t'.Reaches source := by
  cases c with
  | next =>
      obtain ⟨token, hnext⟩ := exists_of_map_eq_ok hok
      exact h.next hnext
  | fetch =>
      obtain ⟨token, hfetch⟩ := exists_of_map_eq_ok hok
      exact h.fetch hfetch
  | pushBack =>
      simp only [Tokenizer.call, Bind.bind, EStateM.bind] at hok
      split at hok
      · next hback =>
        cases hok
        exact h.pushBack hback
      · cases hok

/-- A call that fails without reading leaves the tokenizer alone. -/
theorem eq_of_call_fails {c : Call} {e : LexError} {t' : Tokenizer}
    (h : Tokenizer.call c t = .error e t') (he : e.OfReplay) : t' = t := by
  have hreading (h : e.OfReading) : False := by cases h <;> cases he
  cases c with
  | next => exact (hreading ((next_fails.map some) _ _ _ h)).elim
  | fetch => exact (hreading ((fetch_fails.map some) _ _ _ h)).elim
  | pushBack =>
      simp only [Tokenizer.call, Bind.bind, EStateM.bind] at h
      split at h
      · cases h
      · next hback =>
        cases h
        exact eq_of_pushBack_fails hback

/-- As long as no call fails in reading, calls lead to reached scanners. -/
theorem Reaches.answers (h : t.Reaches source) {calls : List Call}
    (hreplay : ∀ e, .error e ∈ (CssLex.answers Tokenizer.call calls t).1 → e.OfReplay) :
    (CssLex.answers Tokenizer.call calls t).2.Reaches source := by
  induction calls generalizing t with
  | nil => exact h
  | cons c calls ih =>
      unfold CssLex.answers at hreplay ⊢
      cases hcall : Tokenizer.call c t with
      | ok answer t' =>
          simp only [hcall] at hreplay ⊢
          exact ih (h.call hcall) fun e he => hreplay e (List.mem_cons_of_mem _ he)
      | error e t' =>
          simp only [hcall] at hreplay ⊢
          have hsame : t' = t := eq_of_call_fails hcall (hreplay e List.mem_cons_self)
          subst hsame
          exact ih h fun e he => hreplay e (List.mem_cons_of_mem _ he)

/-- Where a source has tokens, the scanner is reached after any calls. -/
theorem answers_reached {source : Source} (hsource : source.Reliable) {found : List Token}
    (h : (ofSource source).tokenize = .ok found) (calls : List Call) :
    (CssLex.answers Tokenizer.call calls (ofSource source)).2.Reaches source := by
  obtain ⟨T, -, hstart⟩ := Follows.start hsource h
  have hreaches : (ofSource source).Reaches source := ⟨[], .start⟩
  refine hreaches.answers fun e he => ?_
  rw [(hstart.answers calls).1] at he
  exact FailsWith.answers (Cursor.call_fails T) calls _ he

end Tokenizer
end CssLex
