import CssLex.Proofs.Production.Reads
import CssLex.Proofs.Production.Tracks
import CssLex.Proofs.Scanner.Steady
import CssLex.Proofs.Token.Shape
import CssLex.Proofs.Tokenizer.Cursor

/-! The shape of tokens. Whatever a tokenizer is asked for, also behind failures of its source, it
gives nothing but tokens that carry what their kind asks for. -/

namespace CssLex

/-- From a state with `P` a computation gives values with `Q`, and whatever it comes to, it leads to
a state with `P`. -/
def Yields {σ α : Type} (P : σ → Prop) (Q : α → Prop) (p : EStateM LexError σ α) : Prop :=
  ∀ s, P s →
    match p s with
    | .ok a s' => Q a ∧ P s'
    | .error _ s' => P s'

theorem Yields.map {σ α β : Type} {P : σ → Prop} {Q : α → Prop} {R : β → Prop}
    {p : EStateM LexError σ α} (h : Yields P Q p) (f : α → β) (hf : ∀ a, Q a → R (f a)) :
    Yields P R (f <$> p) := by
  intro s hs
  have hp := h s hs
  simp only [Functor.map, EStateM.map]
  cases hps : p s with
  | error e s₁ =>
      rw [hps] at hp
      exact hp
  | ok a s₁ =>
      rw [hps] at hp
      exact ⟨hf a hp.1, hp.2⟩

theorem Yields.answers {σ : Type} {P : σ → Prop} {Q : Option Token → Prop}
    {call : Call → EStateM LexError σ (Option Token)} (hcall : ∀ c, Yields P Q (call c))
    (calls : List Call) {s : σ} (hs : P s) :
    (∀ answer, .ok answer ∈ (answers call calls s).1 → Q answer) ∧
      P (CssLex.answers call calls s).2 := by
  induction calls generalizing s with
  | nil => exact ⟨fun _ hmem => absurd hmem List.not_mem_nil, hs⟩
  | cons c calls ih =>
      have hstep := hcall c s hs
      unfold CssLex.answers
      cases hc : call c s with
      | ok answer s' =>
          rw [hc] at hstep
          obtain ⟨hanswers, hlast⟩ := ih hstep.2
          refine ⟨fun answer' hmem => ?_, hlast⟩
          rcases List.mem_cons.mp hmem with heq | hmem
          · rw [Except.ok.inj heq]
            exact hstep.1
          · exact hanswers answer' hmem
      | error e s' =>
          rw [hc] at hstep
          obtain ⟨hanswers, hlast⟩ := ih hstep
          refine ⟨fun answer' hmem => ?_, hlast⟩
          exact hanswers answer' ((List.mem_cons.mp hmem).resolve_left (by simp))

namespace Tokenizer

open Scanner

/-- A tokenizer between two calls: its scanner is composed, and what its current token says has a
property. -/
structure Holding (Q : Lexeme → Prop) (t : Tokenizer) : Prop where
  composed : t.scanner.Composed []
  current : ∀ token, t.current = some token → Q token.toLexeme

section

variable {Q : Lexeme → Prop}

theorem holding_start (source : Source) : (ofSource source).Holding Q := by
  let text : Source := .text (Outcomes.untilFailure (ofSource source).scanner.upcoming)
  have hreliable : text.Reliable := trivial
  have hsteady : (ofSource source).scanner.steady = { source := text } := rfl
  refine ⟨composed_of_sound ?_ ?_, by simp [ofSource]⟩
  · rw [hsteady]
    exact sound_start hreliable
  · rw [hsteady, unread_start hreliable]
    exact preprocessed_normalize _

variable (hQ : ∀ text, Preprocessed text → Q (Grammar.lexeme text).1)
include hQ

theorem scanToken_yields : Yields (Holding Q) (Q ·.toLexeme) scanToken := by
  intro t ht
  have hlexeme := ht.composed.of_reads Production.lexeme_roams Production.lexeme_reads
  unfold scanToken
  cases hread : Production.lexeme t.scanner with
  | error e s =>
      rw [hread] at hlexeme
      exact ⟨hlexeme, ht.current⟩
  | ok l s =>
      rw [hread] at hlexeme
      obtain ⟨⟨text, htext, rfl⟩, hcomposed⟩ := hlexeme
      have hl := hQ text htext
      refine ⟨hl, hcomposed, ?_⟩
      rintro _ ⟨⟩
      exact hl

theorem fetch_yields : Yields (Holding Q) (Q ·.toLexeme) fetch := by
  intro t ht
  have hscan := scanToken_yields hQ { t with replaying := false } ⟨ht.composed, ht.current⟩
  unfold fetch
  cases t.replaying with
  | false => exact hscan
  | true =>
      cases hcurrent : t.current with
      | none =>
          rw [hcurrent] at hscan
          exact hscan
      | some token => exact ⟨ht.current token hcurrent, ht.composed, hcurrent ▸ ht.current⟩

theorem next_yields : Yields (Holding Q) (Q ·.toLexeme) next := by
  intro t ht
  have hfetch := fetch_yields hQ t ht
  fun_induction next t with
  | case1 t e t' h =>
      rw [h] at hfetch
      exact hfetch
  | case2 t token t' h _ _ ih =>
      rw [h] at hfetch
      exact ih hfetch.2 (fetch_yields hQ t' hfetch.2)
  | case3 t token t' h _ =>
      rw [h] at hfetch
      exact hfetch

theorem pull_yields (skipping : Bool) : Yields (Holding Q) (Q ·.toLexeme) (pull skipping) := by
  unfold pull
  split
  · exact next_yields hQ
  · exact fetch_yields hQ

omit hQ in
theorem pushBack_yields : Yields (Holding Q) (fun _ => True) pushBack := by
  intro t ht
  unfold pushBack
  cases t.replaying with
  | true => exact ht
  | false =>
      cases hcurrent : t.current with
      | none => exact ht
      | some token => exact ⟨trivial, ht.composed, hcurrent ▸ ht.current⟩

/-- A call answers with a token that has the property, if with any. -/
theorem call_holds (c : Call) :
    Yields (Holding Q) (fun answer => ∀ token ∈ answer, Q token.toLexeme) (call c) := by
  have hsome : ∀ token : Token, Q token.toLexeme → ∀ token' ∈ some token, Q token'.toLexeme := by
    rintro token h _ ⟨⟩
    exact h
  cases c with
  | next => exact (next_yields hQ).map some hsome
  | fetch => exact (fetch_yields hQ).map some hsome
  | pushBack => exact pushBack_yields.map (fun _ => none) fun _ _ => by simp

theorem collectFrom_holds {skipping : Bool} {read found : List Token} {t : Tokenizer}
    (ht : t.Holding Q) (hread : ∀ token ∈ read, Q token.toLexeme)
    (h : collectFrom skipping read t = .ok found) : ∀ token ∈ found, Q token.toLexeme := by
  have hpull := pull_yields hQ skipping t ht
  fun_induction collectFrom skipping read t with
  | case1 => cases h
  | case2 read t token t' heq _ =>
      rw [heq] at hpull
      cases h
      simpa [or_imp, forall_and] using ⟨hread, hpull.1⟩
  | case3 read t token t' heq _ _ ih =>
      rw [heq] at hpull
      have hmore : ∀ token' ∈ token :: read, Q token'.toLexeme := by
        simpa using ⟨hpull.1, hread⟩
      exact ih hpull.2 hmore h (pull_yields hQ skipping t' hpull.2)

end

/-- The tokens that a tokenizer over a source gives, whatever it was asked for before: as an answer,
as the current token, and in the list of those that are still to come. -/
inductive Given (source : Source) : Token → Prop
  | answer {calls : List Call} {token : Token}
      (h : .ok (some token) ∈ (answers call calls (ofSource source)).1) : Given source token
  | current {calls : List Call} {token : Token}
      (h : (answers call calls (ofSource source)).2.current = some token) : Given source token
  | listed {calls : List Call} {skipping : Bool} {found : List Token} {token : Token}
      (h : (answers call calls (ofSource source)).2.collect skipping = .ok found)
      (hmem : token ∈ found) : Given source token

theorem Given.holds {Q : Lexeme → Prop}
    (hQ : ∀ text, Preprocessed text → Q (Grammar.lexeme text).1) {source : Source} {token : Token}
    (h : Given source token) : Q token.toLexeme := by
  have hrun (calls : List Call) :=
    Yields.answers (call_holds hQ) calls (holding_start source)
  cases h with
  | answer h => exact (hrun _).1 _ h _ rfl
  | current h => exact (hrun _).2.current _ h
  | listed h hmem => exact collectFrom_holds hQ (hrun _).2 (by simp) h _ hmem

/-- A tokenizer between two calls whose current token is well formed. -/
abbrev Shaped (t : Tokenizer) : Prop := t.Holding Lexeme.WellFormed

theorem shaped_start (source : Source) : (ofSource source).Shaped := holding_start source

/-- A call answers with well-formed tokens, if with any. -/
theorem call_yields (c : Call) :
    Yields Shaped (fun answer => ∀ token ∈ answer, token.toLexeme.WellFormed) (call c) :=
  call_holds (fun _ => Grammar.wellFormed_lexeme) c

theorem collectFrom_wellFormed {skipping : Bool} {read found : List Token} {t : Tokenizer}
    (ht : t.Shaped) (hread : ∀ token ∈ read, token.toLexeme.WellFormed)
    (h : collectFrom skipping read t = .ok found) :
    ∀ token ∈ found, token.toLexeme.WellFormed :=
  collectFrom_holds (fun _ => Grammar.wellFormed_lexeme) ht hread h

/-- Whatever a tokenizer over a source of any kind is asked for, whether reads fail in between or
not, every token that it gives is well formed, one by one, as the current token, and in the list of
those that are still to come. -/
theorem tokens_wellFormed (source : Source) (calls : List Call) :
    (∀ token, .ok (some token) ∈ (answers call calls (ofSource source)).1 →
      token.toLexeme.WellFormed) ∧
    (∀ token, (answers call calls (ofSource source)).2.current = some token →
      token.toLexeme.WellFormed) ∧
    ∀ skipping found, (answers call calls (ofSource source)).2.collect skipping = .ok found →
      ∀ token ∈ found, token.toLexeme.WellFormed := by
  obtain ⟨hanswers, hlast⟩ := Yields.answers call_yields calls (shaped_start source)
  refine ⟨fun token hmem => hanswers _ hmem token rfl, hlast.current, fun skipping found h => ?_⟩
  exact collectFrom_wellFormed hlast (by simp) h

end Tokenizer
end CssLex
