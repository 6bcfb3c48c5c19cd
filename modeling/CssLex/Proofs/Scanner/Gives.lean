import CssLex.Proofs.Grammar.Name
import CssLex.Proofs.Scanner.Unread

/-! Scans as functions of the unread characters. A scan may read ahead and hand back; what
matters is the value that it gives and the characters that it leaves, and that offset and line
move with them. -/

namespace CssLex

/-! ## Where a scanner stands -/

namespace Scanner

/-- Reading on to the end passes neither the largest offset nor the largest line. -/
structure Fits (s : Scanner) : Prop where
  position : s.position + s.unread.length ≤ characterLimit
  line : s.line + s.unread.count '\n' ≤ characterLimit

/-- At the end of the text nothing is left to count. -/
theorem Sound.fits_of_unread_nil {s : Scanner} (h : s.Sound) (hunread : s.unread = []) :
    s.Fits := by
  constructor
  · rw [hunread]
    exact h.counted.position_le
  · rw [hunread]
    exact h.counted.line_le

/-- A text that is shorter than the limit can be read to its end. -/
theorem fits_start {source : Source} (h : source.Reliable)
    (hlength : (normalize source.chars).length < characterLimit) :
    ({ source } : Scanner).Fits := by
  have hcount : (normalize source.chars).count '\n' ≤ (normalize source.chars).length :=
    List.count_le_length
  constructor
  · rw [unread_start h]
    change 0 + _ ≤ _
    omega
  · rw [unread_start h]
    change 1 + _ ≤ _
    omega

/-- Every preprocessed text is what some scanner has still to read. -/
theorem exists_scanner {text : List Char} (h : normalize text = text)
    (hlength : text.length < characterLimit) :
    ∃ s : Scanner, s.Sound ∧ s.unread = text ∧ s.Fits := by
  have hreliable : (Source.text text).Reliable := trivial
  have hnormal : normalize (Source.text text).chars = text := by rw [Source.chars_text, h]
  exact ⟨_, sound_start hreliable, (unread_start hreliable).trans hnormal,
    fits_start hreliable (hnormal.symm ▸ hlength)⟩

/-- The scanner `s` comes from `start` by reading on, and has not gone back behind it. The text
ends at the same offset and at the same line for both. -/
structure Reaches (start s : Scanner) : Prop where
  sound : s.Sound
  suffix : s.unread <:+ start.unread
  line_pos : 0 < start.line
  position : s.position + s.unread.length = start.position + start.unread.length
  line : s.line + s.unread.count '\n' = start.line + start.unread.count '\n'

theorem Reaches.refl {s : Scanner} (h : s.Sound) : s.Reaches s :=
  ⟨h, List.suffix_rfl, h.counted.line_pos, rfl, rfl⟩

theorem Reaches.trans {start middle s : Scanner} (h : start.Reaches middle)
    (h' : middle.Reaches s) : start.Reaches s :=
  ⟨h'.sound, h'.suffix.trans h.suffix, h.line_pos, h'.position.trans h.position,
    h'.line.trans h.line⟩

theorem Reaches.fits_iff {start s : Scanner} (h : start.Reaches s) : s.Fits ↔ start.Fits := by
  constructor
  · intro hfits
    exact ⟨h.position ▸ hfits.position, h.line ▸ hfits.line⟩
  · intro hfits
    exact ⟨h.position.symm ▸ hfits.position, h.line.symm ▸ hfits.line⟩

/-- The scanner `s` still delivers what `start` does, and stands at the same place. -/
structure Untouched (start s : Scanner) : Prop where
  unread : s.unread = start.unread
  position : s.position = start.position
  line : s.line = start.line

/-- With nothing read the scanner stands where it stood. -/
theorem Reaches.untouched {start s : Scanner} (h : start.Reaches s)
    (hunread : s.unread = start.unread) : start.Untouched s := by
  have hposition := h.position
  have hline := h.line
  rw [hunread] at hposition hline
  exact ⟨hunread, by omega, by omega⟩

end Scanner

namespace Scan

open Scanner Grammar

variable {α β : Type} {whole rest rest₁ rest₂ : List Char}

/-- At `rest` within the text `whole`, the scan gives `a` and leaves `rest'`, or it fails
because the text is too long to be counted. -/
def Gives (whole rest : List Char) (p : Scan α) (a : α) (rest' : List Char) : Prop :=
  ∀ start s : Scanner, start.unread = whole → s.unread = rest → start.Reaches s →
    match p s with
    | .ok a' s' => a' = a ∧ s'.unread = rest' ∧ start.Reaches s'
    | .error e _ => e = .tooLong ∧ ¬ start.Fits

/-- The scan computes `f` on the unread characters. -/
def Reads (p : Scan α) (f : List Char → α × List Char) : Prop :=
  ∀ whole rest, Gives whole rest p (f rest).1 (f rest).2

/-- Where the scan gives nothing, it leaves everything unread. -/
def Tries (p : Scan (Option α)) (g : List Char → Option (α × List Char)) : Prop :=
  Reads p (attempt g)

/-! ## Composing scans -/

theorem Gives.pure (a : α) : Gives whole rest (Pure.pure a) a rest :=
  fun _ _ _ hrest hreaches => ⟨rfl, hrest, hreaches⟩

theorem Gives.bind {p : Scan α} {k : α → Scan β} {a : α} {b : β}
    (hp : Gives whole rest p a rest₁) (hk : Gives whole rest₁ (k a) b rest₂) :
    Gives whole rest (p >>= k) b rest₂ := by
  intro start s hwhole hrest hreaches
  have h := hp start s hwhole hrest hreaches
  simp only [Bind.bind, EStateM.bind]
  cases hps : p s with
  | error e s₁ =>
      rw [hps] at h
      exact h
  | ok a' s₁ =>
      rw [hps] at h
      obtain ⟨rfl, hrest₁, hreaches₁⟩ := h
      exact hk start s₁ hwhole hrest₁ hreaches₁

/-- What is unread is the end of the whole text. -/
theorem Gives.of_suffix {p : Scan α} {a : α}
    (h : rest <:+ whole → Gives whole rest p a rest₁) : Gives whole rest p a rest₁ := by
  intro start s hwhole hrest hreaches
  have hsuffix := hreaches.suffix
  rw [hwhole, hrest] at hsuffix
  exact h hsuffix start s hwhole hrest hreaches

theorem Reads.pure (a : α) : Reads (Pure.pure a) fun rest => (a, rest) :=
  fun _ _ => Gives.pure a

theorem Reads.bind {p : Scan α} {k : α → Scan β} {f : List Char → α × List Char}
    {g : α → List Char → β × List Char} (hp : Reads p f) (hk : ∀ a, Reads (k a) (g a)) :
    Reads (p >>= k) fun rest => g (f rest).1 (f rest).2 :=
  fun whole rest => (hp whole rest).bind (hk _ whole _)

theorem Reads.congr {p : Scan α} {f g : List Char → α × List Char} (h : Reads p f)
    (heq : ∀ rest, f rest = g rest) : Reads p g :=
  fun whole rest => heq rest ▸ h whole rest

theorem Tries.some {p : Scan (Option α)} {g : List Char → Option (α × List Char)} {a : α}
    (h : Tries p g) (heq : g rest = some (a, rest₁)) : Gives whole rest p (some a) rest₁ := by
  simpa only [attempt, heq] using h whole rest

theorem Tries.none {p : Scan (Option α)} {g : List Char → Option (α × List Char)}
    (h : Tries p g) (heq : g rest = none) : Gives whole rest p none rest := by
  simpa only [attempt, heq] using h whole rest

/-! ## What a scan that reads a function does to a scanner -/

/-- What the scan comes to in a sound scanner. -/
theorem Reads.outcome {p : Scan α} {f : List Char → α × List Char} (h : Reads p f) {s : Scanner}
    (hs : s.Sound) :
    match p s with
    | .ok a s' => f s.unread = (a, s'.unread) ∧ s.Reaches s'
    | .error e _ => e = .tooLong ∧ ¬ s.Fits := by
  have h := h s.unread s.unread s s rfl rfl (.refl hs)
  cases hp : p s with
  | error e s' =>
      rw [hp] at h
      exact h
  | ok a s' =>
      rw [hp] at h
      obtain ⟨rfl, hrest, hreaches⟩ := h
      exact ⟨by rw [hrest], hreaches⟩

theorem Reads.of_ok {p : Scan α} {f : List Char → α × List Char} (h : Reads p f)
    {s s' : Scanner} {a : α} (hs : s.Sound) (hok : p s = .ok a s') :
    f s.unread = (a, s'.unread) ∧ s.Reaches s' := by
  have h := h.outcome hs
  rwa [hok] at h

/-- Where the text is not too long to be counted, the scan does not fail. -/
theorem Reads.ok_of_fits {p : Scan α} {f : List Char → α × List Char} (h : Reads p f)
    {s : Scanner} (hs : s.Sound) (hfits : s.Fits) : ∃ s', p s = .ok (f s.unread).1 s' := by
  have h := h.outcome hs
  cases hp : p s with
  | error e s' =>
      rw [hp] at h
      exact absurd hfits h.2
  | ok a s' =>
      rw [hp] at h
      exact ⟨s', by rw [h.1]⟩

/-- What the scan gives, if anything, and what it leaves. -/
theorem Tries.outcome {p : Scan (Option α)} {g : List Char → Option (α × List Char)}
    (h : Tries p g) {s : Scanner} (hs : s.Sound) :
    match p s with
    | .ok (.some a) s' => g s.unread = .some (a, s'.unread) ∧ s.Reaches s'
    | .ok .none s' => g s.unread = .none ∧ s.Untouched s'
    | .error e _ => e = .tooLong ∧ ¬ s.Fits := by
  have h := Reads.outcome h hs
  cases hp : p s with
  | error e s' =>
      rw [hp] at h
      exact h
  | ok result s' =>
      rw [hp] at h
      obtain ⟨heq, hreaches⟩ := h
      cases hg : g s.unread with
      | none =>
          rw [attempt_of_none hg] at heq
          obtain ⟨rfl, hunread⟩ := Prod.mk.inj heq
          exact ⟨rfl, hreaches.untouched hunread.symm⟩
      | some found =>
          rw [attempt_of_some hg] at heq
          obtain ⟨rfl, hunread⟩ := Prod.mk.inj heq
          exact ⟨by rw [← hunread], hreaches⟩

/-- A scan that declines leaves the unread characters, the offset and the line as they were. -/
theorem Tries.untouched {p : Scan (Option α)} {g : List Char → Option (α × List Char)}
    (h : Tries p g) {s s' : Scanner} (hs : s.Sound) (hok : p s = .ok Option.none s') :
    s.Untouched s' := by
  have h := h.outcome hs
  rw [hok] at h
  exact h.2

/-- A mark that is not found leaves everything as it was. -/
theorem Reads.untouched_of_mark {p : Scan Bool} {expected : List Char}
    (h : Reads p (mark expected)) {s s' : Scanner} (hs : s.Sound) (hok : p s = .ok false s') :
    s.Untouched s' := by
  obtain ⟨heq, hreaches⟩ := h.of_ok hs hok
  exact hreaches.untouched (eq_of_mark_false heq)

end Scan

/-! ## Single entries -/

namespace Scanner

open Scan Grammar

variable {whole rest : List Char}

/-- The state behind a character that was read and counted. -/
theorem Reaches.advance {start s s₁ : Scanner} {c : Char} (h : start.Reaches s)
    (hrest : s.unread = c :: rest) (hsound : s₁.Sound) (hunread : s₁.unread = rest)
    {position line : Nat} (hposition : position = s.position + 1)
    (hline : line = s.line + if c = '\n' then 1 else 0) (hcounted : Counted position line) :
    ({ s₁ with position, line } : Scanner).unread = rest ∧
      start.Reaches { s₁ with position, line } := by
  obtain ⟨hsound', hunread'⟩ := hsound.move hcounted
  refine ⟨hunread'.trans hunread, hsound', ?_, h.line_pos, ?_, ?_⟩
  · rw [hunread', hunread]
    exact (List.suffix_cons c rest).trans (hrest ▸ h.suffix)
  · have := h.position
    rw [hrest, List.length_cons] at this
    rw [hunread', hunread, hposition, ← this]
    change s.position + 1 + _ = _
    omega
  · have := h.line
    rw [hrest, List.count_cons] at this
    rw [hunread', hunread, hline, ← this]
    change s.line + (if c = '\n' then 1 else 0) + _ = _
    simp only [beq_iff_eq]
    omega

theorem next_gives_some (c : Char) : Gives whole (c :: rest) next (some c) rest := by
  intro start s hwhole hrest hreaches
  obtain ⟨s₁, htake, hsound, hunread, hposition, hline⟩ := take_of_sound hreaches.sound
  rw [hrest] at htake hunread
  have hcounted := hsound.counted
  have hfirst := hcounted.position_le
  have hhighest := hcounted.line_le
  have hend := hreaches.position
  have hlast := hreaches.line
  rw [hrest, List.length_cons] at hend
  rw [hrest, List.count_cons] at hlast
  simp only [next, Bind.bind, EStateM.bind, htake, List.head?_cons, count]
  by_cases hfull : s₁.position = characterLimit
  · rw [if_pos hfull]
    refine ⟨rfl, fun hfits => ?_⟩
    have := hfits.position
    omega
  · rw [if_neg hfull]
    by_cases hc : c = '\n'
    · rw [if_pos hc]
      by_cases hbottom : s₁.line = characterLimit
      · rw [if_pos hbottom]
        refine ⟨rfl, fun hfits => ?_⟩
        have := hfits.line
        simp only [hc, beq_self_eq_true, if_true] at hlast
        omega
      · rw [if_neg hbottom]
        exact ⟨rfl, hreaches.advance hrest hsound hunread (by rw [hposition])
          (by rw [if_pos hc, hline]) ⟨by omega, by omega, by omega⟩⟩
    · rw [if_neg hc]
      exact ⟨rfl, hreaches.advance hrest hsound hunread (by rw [hposition])
        (by rw [if_neg hc, hline, Nat.add_zero]) ⟨by omega, hcounted.line_pos, hcounted.line_le⟩⟩

theorem next_gives_none : Gives whole [] next none [] := by
  intro start s hwhole hrest hreaches
  obtain ⟨s₁, htake, hsound, hunread, hposition, hline⟩ := take_of_sound hreaches.sound
  rw [hrest] at htake hunread
  simp only [next, Bind.bind, EStateM.bind, htake, List.head?_nil]
  refine ⟨rfl, hunread, hsound, ?_, hreaches.line_pos, ?_, ?_⟩
  · rw [hunread]
    exact List.nil_suffix
  · rw [hunread, hposition, ← hreaches.position, hrest]
    rfl
  · rw [hunread, hline, ← hreaches.line, hrest]
    rfl

theorem Sound.pushBack_some {s : Scanner} (h : s.Sound) (c : Char) :
    ∃ s', pushBack (some c) s = .ok () s' ∧ s'.Sound ∧ s'.unread = c :: s.unread ∧
      s'.position = s.position - 1 ∧
      s'.line = if c = '\n' then max (s.line - 1) 1 else s.line := by
  obtain ⟨hsound, hunread⟩ := h.defer_some c
  obtain ⟨hlow, hpositive, hhigh⟩ := h.counted
  have hcounted : Counted (s.position - 1) (if c = '\n' then max (s.line - 1) 1 else s.line) :=
    ⟨by omega, by split <;> omega, by split <;> omega⟩
  obtain ⟨hsound', hunread'⟩ := hsound.move hcounted
  exact ⟨_, rfl, hsound', hunread'.trans hunread, rfl, rfl⟩

/-- The entry that was read last can be handed back. -/
theorem pushBack_gives_some {c : Char} (h : c :: rest <:+ whole) :
    Gives whole rest (pushBack (some c)) () (c :: rest) := by
  intro start s hwhole hrest hreaches
  obtain ⟨s', hback, hsound, hunread, hposition', hline'⟩ := hreaches.sound.pushBack_some c
  have hposition := hreaches.position
  have hline := hreaches.line
  have hpos := hreaches.line_pos
  have hlength := h.length_le
  have hcount := h.sublist.count_le '\n'
  rw [hrest, hwhole] at hposition hline
  rw [hrest] at hunread
  rw [List.length_cons] at hlength
  rw [List.count_cons] at hcount
  rw [hback]
  refine ⟨rfl, hunread, hsound, ?_, hpos, ?_, ?_⟩
  · rw [hunread, hwhole]
    exact h
  · rw [hunread, hwhole, List.length_cons]
    omega
  · rw [hunread, hwhole, List.count_cons, hline']
    by_cases hc : c = '\n'
    · simp only [hc, beq_self_eq_true, if_true] at hcount ⊢
      omega
    · simp only [hc, if_false, beq_iff_eq]
      omega

theorem pushBack_gives_none : Gives whole [] (pushBack none) () [] := by
  intro start s hwhole hrest hreaches
  obtain ⟨hsound, hunread⟩ := hreaches.sound.defer_none hrest
  refine ⟨rfl, hunread, hsound, ?_, hreaches.line_pos, ?_, ?_⟩
  · rw [hunread]
    exact List.nil_suffix
  · rw [hunread, ← hreaches.position, hrest]
  · rw [hunread, ← hreaches.line, hrest]

theorem takeIf_tries (accept : Char → Bool) : Tries (takeIf accept) (char? accept) := by
  intro whole rest
  cases rest with
  | nil => exact next_gives_none.bind (pushBack_gives_none.bind (.pure none))
  | cons c rest =>
      apply Gives.of_suffix
      intro hsuffix
      apply (next_gives_some c).bind
      cases hc : accept c with
      | true =>
          simp only [attempt, char?_of_accept hc, hc, if_true]
          exact .pure (some c)
      | false =>
          simp only [attempt, char?_of_not_accept hc, hc, Bool.false_eq_true, if_false]
          exact (pushBack_gives_some hsuffix).bind (.pure none)

theorem eat_reads (c : Char) : Reads (eat c) (mark [c]) := by
  intro whole rest
  cases rest with
  | nil => exact next_gives_none.bind (pushBack_gives_none.bind (.pure false))
  | cons d rest =>
      apply Gives.of_suffix
      intro hsuffix
      apply (next_gives_some d).bind
      by_cases hd : d = c
      · rw [hd, mark_cons_self, if_pos rfl]
        exact .pure true
      · rw [mark_cons_ne hd, if_neg (by simpa using hd)]
        exact (pushBack_gives_some hsuffix).bind (.pure false)

theorem eat_gives_true (c : Char) : Gives whole (c :: rest) (eat c) true rest := by
  have h := eat_reads c whole (c :: rest)
  rwa [mark_cons_self] at h

theorem eat_gives_false {c : Char} (hhead : rest.head? ≠ some c) :
    Gives whole rest (eat c) false rest := by
  have h := eat_reads c whole rest
  rwa [mark_of_head hhead] at h

end Scanner

/-! ## Loops -/

namespace Loop

open Scan

variable {α β : Type}

/-- A loop computes every function that unfolds into its turns. -/
theorem run_reads (loop : Loop α β) {turn : List Char → Turn α β × List Char}
    {run : List Char → (List α × β) × List Char} (hturn : Reads loop.turn turn)
    (hmore : ∀ text item rest, turn text = (.more item, rest) →
      run text = ((item :: (run rest).1.1, (run rest).1.2), (run rest).2))
    (hstop : ∀ text last rest, turn text = (.stop last, rest) → run text = (([], last), rest)) :
    Reads loop.run run := by
  suffices ∀ read whole rest, Gives whole rest (loop.runFrom read)
      (read.reverse ++ (run rest).1.1, (run rest).1.2) (run rest).2 from this []
  intro read whole rest start s hwhole hrest hreaches
  fun_induction runFrom loop read s generalizing rest with
  | case1 read s e s₁ h =>
      have hgives := hturn whole rest start s hwhole hrest hreaches
      rw [h] at hgives
      exact hgives
  | case2 read s last s₁ h =>
      have hgives := hturn whole rest start s hwhole hrest hreaches
      rw [h] at hgives
      obtain ⟨hlast, hrest₁, hreaches₁⟩ := hgives
      rw [hstop rest last (turn rest).2 (by rw [hlast])]
      exact ⟨by simp, hrest₁, hreaches₁⟩
  | case3 read s item s₁ h _ ih =>
      have hgives := hturn whole rest start s hwhole hrest hreaches
      rw [h] at hgives
      obtain ⟨hitem, hrest₁, hreaches₁⟩ := hgives
      have hunfold := hmore rest item (turn rest).2 (by rw [hitem])
      have hrun := ih _ hrest₁ hreaches₁
      rw [hunfold]
      simpa only [List.reverse_cons, List.append_assoc, List.singleton_append] using hrun

/-- A reader that is repeated until it declines. -/
theorem repeating_reads {reader : Scan (Option α)}
    {hspends : Scan.Spends reader fun item => if item.isSome then 1 else 0}
    {read : List Char → Option (α × List Char)} (run : List Char → List α × List Char)
    (hread : Tries reader read)
    (hmore : ∀ text item rest, read text = some (item, rest) →
      run text = (item :: (run rest).1, (run rest).2))
    (hstop : ∀ text, read text = none → run text = ([], text)) :
    Reads (Loop.repeating reader hspends).run fun text => (((run text).1, ()), (run text).2) := by
  have hturn : Reads (Loop.repeating reader hspends).turn fun text =>
      (read text).elim (.stop (), text) fun found => (.more found.1, found.2) := by
    intro whole text
    cases heq : read text with
    | some found =>
        simp only [heq, Option.elim_some]
        exact (hread.some heq).bind (.pure _)
    | none =>
        simp only [heq, Option.elim_none]
        exact (hread.none heq).bind (.pure _)
  refine run_reads _ hturn ?_ ?_
  · intro text item rest heq
    cases hfound : read text with
    | none => simp [hfound] at heq
    | some found =>
        simp only [hfound, Option.elim_some, Prod.mk.injEq, Turn.more.injEq] at heq
        obtain ⟨rfl, rfl⟩ := heq
        rw [hmore text _ _ hfound]
  · intro text last rest heq
    cases hfound : read text with
    | some found => simp [hfound] at heq
    | none =>
        simp only [hfound, Option.elim_none, Prod.mk.injEq] at heq
        obtain ⟨-, rfl⟩ := heq
        rw [hstop text hfound]

end Loop
end CssLex
