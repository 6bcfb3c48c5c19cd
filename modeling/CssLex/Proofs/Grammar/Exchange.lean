import CssLex.Proofs.Grammar.Absent

/-! Exchanging what is left unread. What a reader gives depends on the text that it reads and on
the first few characters of the text that it leaves; behind these, that text may be another one,
and it may also end anywhere. -/

namespace CssLex.Grammar

open Production

variable {α β γ : Type} {m n : Nat} {front x y : List Char}

/-! ## Texts that start alike -/

/-- For `n` characters `y` goes on as `x` does, unless it ends before that. -/
def Resembles (n : Nat) (y x : List Char) : Prop := y.take n <+: x

theorem resembles_nil (n : Nat) (x : List Char) : Resembles n [] x := by
  rw [Resembles, List.take_nil]
  exact List.nil_prefix

theorem Resembles.mono (h : Resembles n y x) (hm : m ≤ n) : Resembles m y x :=
  (List.take_prefix_take_left hm).trans h

theorem resembles_cons {c : Char} :
    Resembles (n + 1) (c :: y) x ↔ ∃ rest, x = c :: rest ∧ Resembles n y rest := by
  rw [Resembles, List.take_succ_cons, List.cons_prefix_iff]
  rfl

theorem Resembles.append (h : Resembles n y x) (front : List Char) :
    Resembles n (front ++ y) (front ++ x) := by
  induction front generalizing n with
  | nil => exact h
  | cons c front ih =>
      cases n with
      | zero => exact List.nil_prefix
      | succ n => exact resembles_cons.mpr ⟨_, rfl, ih (h.mono (Nat.le_succ n))⟩

theorem Resembles.eq_nil (h : Resembles n y []) (hn : 1 ≤ n) : y = [] := by
  cases y with
  | nil => rfl
  | cons c y =>
      obtain ⟨rest, hrest, -⟩ := resembles_cons.mp (h.mono hn)
      cases hrest

/-- Where `x` does not go on in some way, `y` does not. -/
theorem Resembles.char?_none {accept : Char → Bool} (h : Resembles n y x) (hn : 1 ≤ n)
    (hx : char? accept x = none) : char? accept y = none := by
  cases y with
  | nil => rfl
  | cons c y =>
      obtain ⟨rest, rfl, -⟩ := resembles_cons.mp (h.mono hn)
      cases hc : accept c with
      | true => simp [char?_of_accept hc] at hx
      | false => exact char?_of_not_accept hc y

/-! ## Readers -/

/-- What `f` gives stays if the text that it leaves is exchanged for one that resembles it. -/
structure Exchanges (n : Nat) (f : List Char → α × List Char) : Prop where
  suffix : ∀ text, (f text).2 <:+ text
  exchange : ∀ {front x y a}, Resembles n y x → f (front ++ x) = (a, x) → f (front ++ y) = (a, y)

/-- The same of what a reader finds, if it does not decline. -/
structure Finds (n : Nat) (read : List Char → Option (α × List Char)) : Prop where
  suffix : ∀ {text a rest}, read text = some (a, rest) → rest <:+ text
  found : ∀ {front x y a}, Resembles n y x → read (front ++ x) = some (a, x) →
    read (front ++ y) = some (a, y)

/-- A reader that declines a text also declines the texts that resemble it. -/
structure Exchanges? (n : Nat) (read : List Char → Option (α × List Char)) : Prop
    extends Finds n read where
  missing : ∀ {x y}, Resembles n y x → read x = none → read y = none

namespace Exchanges

variable {f : List Char → α × List Char}

theorem mono (h : Exchanges m f) (hm : m ≤ n) : Exchanges n f :=
  ⟨h.suffix, fun hxy hf => h.exchange (hxy.mono hm) hf⟩

theorem congr {g : List Char → α × List Char} (h : Exchanges n f)
    (heq : ∀ text, f text = g text) : Exchanges n g :=
  funext heq ▸ h

theorem ite {g : List Char → α × List Char} (p : Prop) [Decidable p] (hf : Exchanges n f)
    (hg : Exchanges n g) : Exchanges n fun text => if p then f text else g text := by
  by_cases hp : p
  · simpa only [hp, if_true] using hf
  · simpa only [hp, if_false] using hg

/-- What is left may start with characters that are kept. -/
theorem within (h : Exchanges n f) (hxy : Resembles n y x) {middle : List Char} {a : α}
    (hf : f (front ++ x) = (a, middle ++ x)) : f (front ++ y) = (a, middle ++ y) := by
  obtain ⟨first, hfirst⟩ := hf ▸ h.suffix (front ++ x)
  rw [← List.append_assoc] at hfirst
  obtain rfl := List.append_cancel_right hfirst
  rw [List.append_assoc] at hf ⊢
  exact h.exchange (hxy.append middle) hf

theorem pure (a : α) : Exchanges n fun text => (a, text) where
  suffix _ := List.suffix_rfl
  exchange _ hf := by
    obtain ⟨rfl, hrest⟩ := Prod.mk.inj hf
    rw [List.append_left_eq_self.mp hrest]
    rfl

theorem bind {g : α → List Char → β × List Char} (hf : Exchanges n f)
    (hg : ∀ a, Exchanges n (g a)) : Exchanges n fun text => g (f text).1 (f text).2 where
  suffix text := ((hg _).suffix _).trans (hf.suffix text)
  exchange := by
    intro front x y b hxy hread
    obtain ⟨middle, hmiddle⟩ := hread ▸ (hg (f (front ++ x)).1).suffix (f (front ++ x)).2
    have hright := hf.within hxy (Prod.ext rfl hmiddle.symm : f (front ++ x) = (_, middle ++ x))
    rw [← hmiddle] at hread
    simp only [hright]
    exact (hg _).exchange hxy hread

theorem map (hf : Exchanges n f) (g : α → β) : Exchanges n fun text => (g (f text).1, (f text).2) :=
  hf.bind fun a => pure (g a)

/-- A loop exchanges what its turns do. -/
theorem run {turn : List Char → Turn α β × List Char}
    {run : List Char → (List α × β) × List Char} (hturn : Exchanges n turn)
    (hlength : ∀ text item rest, turn text = (.more item, rest) → rest.length < text.length)
    (hmore : ∀ text item rest, turn text = (.more item, rest) →
      run text = ((item :: (run rest).1.1, (run rest).1.2), (run rest).2))
    (hstop : ∀ text last rest, turn text = (.stop last, rest) → run text = (([], last), rest)) :
    Exchanges n run := by
  have hsuffix : ∀ text, (run text).2 <:+ text := by
    intro text
    generalize hk : text.length = k
    induction k using Nat.strongRecOn generalizing text with
    | ind k ih =>
        rcases hread : turn text with ⟨item | last, rest⟩
        · have hrest := hread ▸ hturn.suffix text
          rw [hmore text item rest hread]
          exact (ih _ (hk ▸ hlength text item rest hread) rest rfl).trans hrest
        · have hrest := hturn.suffix text
          rw [hread] at hrest
          rw [hstop text last rest hread]
          exact hrest
  refine ⟨hsuffix, ?_⟩
  intro front x y a hxy h
  generalize hk : (front ++ x).length = k
  induction k using Nat.strongRecOn generalizing front a with
  | ind k ih =>
      rcases hread : turn (front ++ x) with ⟨item | last, rest⟩
      · rw [hmore _ item rest hread] at h
        obtain ⟨rfl, hrest⟩ := Prod.mk.inj h
        obtain ⟨middle, rfl⟩ := hrest ▸ hsuffix rest
        have hmiddle := ih _ (hk ▸ hlength _ item _ hread) (Prod.ext rfl hrest) rfl
        rw [hmore _ item _ (hturn.within hxy hread), hmiddle]
      · rw [hstop _ last rest hread] at h
        obtain ⟨rfl, rfl⟩ := Prod.mk.inj h
        rw [hstop _ last y (hturn.exchange hxy hread)]

end Exchanges

/-- What was read, unless it is refused. -/
theorem Exchanges.finds {f : List Char → α × List Char} (h : Exchanges n f) (refused : α → Prop)
    [DecidablePred refused] :
    Finds n fun text => if refused (f text).1 then none else some (f text) where
  suffix := by
    intro text a rest hread
    obtain ⟨-, hread⟩ := Option.ite_none_left_eq_some.mp hread
    have hsuffix := h.suffix text
    rwa [Option.some.inj hread] at hsuffix
  found := by
    intro front x y a hxy hread
    obtain ⟨hkept, hread⟩ := Option.ite_none_left_eq_some.mp hread
    rw [Option.some.inj hread] at hkept
    simp only [h.exchange hxy (Option.some.inj hread), hkept, if_false]

namespace Finds

variable {read : List Char → Option (α × List Char)}

theorem mono (h : Finds m read) (hm : m ≤ n) : Finds n read :=
  ⟨h.suffix, fun hxy hread => h.found (hxy.mono hm) hread⟩

theorem congr {read' : List Char → Option (α × List Char)} (h : Finds n read)
    (heq : ∀ text, read text = read' text) : Finds n read' :=
  funext heq ▸ h

theorem within (h : Finds n read) (hxy : Resembles n y x) {middle : List Char} {a : α}
    (hread : read (front ++ x) = some (a, middle ++ x)) :
    read (front ++ y) = some (a, middle ++ y) := by
  obtain ⟨first, hfirst⟩ := h.suffix hread
  rw [← List.append_assoc] at hfirst
  obtain rfl := List.append_cancel_right hfirst
  rw [List.append_assoc] at hread ⊢
  exact h.found (hxy.append middle) hread

/-- A reader that goes on behind what another one finds. -/
theorem bind {g : α → List Char → β × List Char} (hread : Finds n read)
    (hg : ∀ a, Exchanges n (g a)) :
    Finds n fun text => (read text).map fun found => g found.1 found.2 where
  suffix := by
    intro text b rest h
    obtain ⟨⟨a, middle⟩, ha, hb⟩ := Option.map_eq_some_iff.mp h
    exact (hb ▸ (hg a).suffix middle).trans (hread.suffix ha)
  found := by
    intro front x y b hxy h
    obtain ⟨⟨a, rest⟩, ha, hb⟩ := Option.map_eq_some_iff.mp h
    obtain ⟨middle, rfl⟩ := hb ▸ (hg a).suffix rest
    rw [hread.within hxy ha, Option.map_some, (hg a).exchange hxy hb]

/-- Where nothing is found, something else is read. -/
theorem orElse {f : α → List Char → β × List Char} {b : β} {other other' : β × List Char}
    (hread : Finds n read) (hf : ∀ a, Exchanges n (f a)) (hxy : Resembles n y x)
    (hother : read (front ++ x) = none → other = (b, x) →
      read (front ++ y) = none ∧ other' = (b, y))
    (h : ((read (front ++ x)).elim other fun found => f found.1 found.2) = (b, x)) :
    ((read (front ++ y)).elim other' fun found => f found.1 found.2) = (b, y) := by
  cases hfound : read (front ++ x) with
  | some found =>
      obtain ⟨a, rest⟩ := found
      rw [hfound, Option.elim_some] at h
      have hsuffix : x <:+ rest := by simpa only [h] using (hf a).suffix rest
      obtain ⟨middle, rfl⟩ := hsuffix
      rw [hread.within hxy hfound, Option.elim_some]
      exact (hf a).exchange hxy h
  | none =>
      rw [hfound, Option.elim_none] at h
      obtain ⟨hnone, h⟩ := hother hfound h
      rw [hnone, Option.elim_none]
      exact h

end Finds

namespace Exchanges?

variable {read : List Char → Option (α × List Char)}

theorem mono (h : Exchanges? m read) (hm : m ≤ n) : Exchanges? n read where
  toFinds := h.toFinds.mono hm
  missing hxy hread := h.missing (hxy.mono hm) hread

theorem congr {read' : List Char → Option (α × List Char)} (h : Exchanges? n read)
    (heq : ∀ text, read text = read' text) : Exchanges? n read' :=
  funext heq ▸ h

theorem orElse {f : α → List Char → β × List Char} {g : List Char → β × List Char}
    (hread : Exchanges? n read) (hf : ∀ a, Exchanges n (f a)) (hg : Exchanges n g) :
    Exchanges n fun text => (read text).elim (g text) fun found => f found.1 found.2 where
  suffix text := by
    cases hfound : read text with
    | some found => exact ((hf found.1).suffix found.2).trans (hread.suffix hfound)
    | none => exact hg.suffix text
  exchange hxy h := hread.toFinds.orElse hf hxy
    (fun hnone hother => ⟨hread.missing (hxy.append _) hnone, hg.exchange hxy hother⟩) h

theorem attempt (h : Exchanges? n read) : Exchanges n (Grammar.attempt read) := by
  refine (h.orElse (fun a => .pure (some a)) (.pure none)).congr fun text => ?_
  unfold Grammar.attempt
  cases read text <;> rfl

theorem bind {g : α → List Char → β × List Char} (hread : Exchanges? n read)
    (hg : ∀ a, Exchanges n (g a)) :
    Exchanges? n fun text => (read text).map fun found => g found.1 found.2 where
  toFinds := hread.toFinds.bind hg
  missing hxy h := by
    rw [Option.map_eq_none_iff] at h ⊢
    exact hread.missing hxy h

theorem map (hread : Exchanges? n read) (g : α → β) :
    Exchanges? n fun text => (read text).map fun found => (g found.1, found.2) :=
  hread.bind fun a => .pure (g a)

/-- A reader that is tried where another one declines. -/
theorem or {other : List Char → Option (α × List Char)} (hread : Exchanges? n read)
    (hother : Exchanges? n other) : Exchanges? n fun text => (read text).or (other text) where
  suffix := by
    intro text a rest h
    rcases Option.or_eq_some_iff.mp h with h | ⟨-, h⟩
    · exact hread.suffix h
    · exact hother.suffix h
  found := by
    intro front x y a hxy h
    rcases Option.or_eq_some_iff.mp h with h | ⟨hnone, h⟩
    · rw [hread.found hxy h, Option.some_or]
    · rw [hread.missing (hxy.append front) hnone, hother.found hxy h, Option.none_or]
  missing hxy h := by
    obtain ⟨hnone, h⟩ := Option.or_eq_none_iff.mp h
    rw [hread.missing hxy hnone, hother.missing hxy h, Option.none_or]

/-- A reader that is repeated until it declines. -/
theorem run {run : List Char → List α × List Char} (hread : Exchanges? n read)
    (hlength : ∀ text item rest, read text = some (item, rest) → rest.length < text.length)
    (hmore : ∀ text item rest, read text = some (item, rest) →
      run text = (item :: (run rest).1, (run rest).2))
    (hstop : ∀ text, read text = none → run text = ([], text)) : Exchanges n run := by
  have hturn := hread.attempt.map fun found => found.elim (.stop ()) Turn.more
  have hloop : Exchanges n fun text => (((run text).1, ()), (run text).2) := by
    refine hturn.run ?_ ?_ ?_
    · intro text item rest h
      cases hfound : read text with
      | none => simp [attempt_of_none hfound] at h
      | some found =>
          simp only [attempt_of_some hfound, Option.elim_some, Prod.mk.injEq, Turn.more.injEq] at h
          obtain ⟨rfl, rfl⟩ := h
          exact hlength text _ _ hfound
    · intro text item rest h
      cases hfound : read text with
      | none => simp [attempt_of_none hfound] at h
      | some found =>
          simp only [attempt_of_some hfound, Option.elim_some, Prod.mk.injEq, Turn.more.injEq] at h
          obtain ⟨rfl, rfl⟩ := h
          rw [hmore text _ _ hfound]
    · intro text last rest h
      cases hfound : read text with
      | some found => simp [attempt_of_some hfound] at h
      | none =>
          rw [attempt_of_none hfound] at h
          obtain ⟨-, rfl⟩ := Prod.mk.inj h
          rw [hstop text hfound]
  exact hloop.map (·.1)

end Exchanges?

/-! ## Characters and marks -/

theorem char?_exchanges (accept : Char → Bool) : Exchanges? 1 (char? accept) where
  suffix h := (char?_tail h).1
  found := by
    intro front x y c hxy h
    obtain ⟨hfront, hc⟩ := eq_cons_of_char? h
    have hfront : front = [c] := List.append_cancel_right (show front ++ x = [c] ++ x from hfront)
    rw [hfront]
    exact char?_of_accept hc y
  missing hxy h := hxy.char?_none (Nat.le_refl 1) h

section Behind

variable (accept : Char → Bool) {read : Char → List Char → Option (α × List Char)}

/-- A reader behind a first character. -/
theorem Finds.behind (hn : 1 ≤ n) (h : ∀ c, Finds n (read c)) :
    Finds n fun text => (char? accept text).bind fun found => read found.1 found.2 where
  suffix := by
    intro text a rest hread
    obtain ⟨⟨c, middle⟩, hc, hread⟩ := Option.bind_eq_some_iff.mp hread
    exact ((h c).suffix hread).trans (char?_tail hc).1
  found := by
    intro front x y a hxy hread
    obtain ⟨⟨c, rest⟩, hc, hread⟩ := Option.bind_eq_some_iff.mp hread
    obtain ⟨middle, rfl⟩ := (h c).suffix hread
    rw [((char?_exchanges accept).mono hn).within hxy hc, Option.bind_some]
    exact (h c).found hxy hread

/-- To see that nothing is there takes one character more. -/
theorem Exchanges?.behind (h : ∀ c, Exchanges? n (read c)) :
    Exchanges? (n + 1) fun text => (char? accept text).bind fun found => read found.1 found.2 where
  toFinds := Finds.behind accept (Nat.le_add_left 1 n) fun c => (h c).toFinds.mono (Nat.le_succ n)
  missing := by
    intro x y hxy hread
    cases y with
    | nil => rfl
    | cons c y =>
        obtain ⟨rest, rfl, hrest⟩ := resembles_cons.mp hxy
        cases hc : accept c with
        | false => rw [char?_of_not_accept hc, Option.bind_none]
        | true =>
            rw [char?_of_accept hc, Option.bind_some] at hread ⊢
            exact (h c).missing hrest hread

end Behind

theorem mark_append (expected text : List Char) :
    mark expected (expected ++ text) = (true, text) := by
  simp [mark]

theorem mark_exchanges {expected : List Char} (h : expected.length ≤ n) :
    Exchanges n (mark expected) where
  suffix := mark_suffix expected
  exchange := by
    intro front x y found hxy hx
    cases found with
    | true =>
        rw [List.append_cancel_right (eq_of_mark_true hx)]
        exact mark_append expected y
    | false =>
        have hfront : front = [] := List.append_left_eq_self.mp (eq_of_mark_false hx).symm
        subst hfront
        rcases hy : mark expected y with ⟨found, rest⟩
        cases found with
        | false =>
            rw [List.nil_append, hy, eq_of_mark_false hy]
        | true =>
            -- then `x` starts with the mark, too
            rw [eq_of_mark_true hy] at hxy
            have hmark : expected <+: (expected ++ rest).take n :=
              List.prefix_take_iff.mpr ⟨List.prefix_append expected rest, h⟩
            obtain ⟨rest', rfl⟩ := hmark.trans hxy
            rw [List.nil_append, mark_append] at hx
            cases hx

section AtMark

variable {a : α} {f g : List Char → α × List Char}

/-- What is read depends on a mark. -/
theorem atMark_exchange (expected : List Char) (hmark : expected.length ≤ n)
    (hxy : Resembles n y x) (hf : Exchanges n f) {other other' : α × List Char}
    (hother : other = (a, x) → other' = (a, y))
    (h : (match mark expected (front ++ x) with
      | (true, rest) => f rest
      | (false, _) => other) = (a, x)) :
    (match mark expected (front ++ y) with
      | (true, rest) => f rest
      | (false, _) => other') = (a, y) := by
  rcases hread : mark expected (front ++ x) with ⟨found, rest⟩
  rw [hread] at h
  cases found with
  | true =>
      have h : f rest = (a, x) := h
      have hsuffix : x <:+ rest := by simpa only [h] using hf.suffix rest
      obtain ⟨middle, rfl⟩ := hsuffix
      rw [(mark_exchanges hmark).within hxy hread]
      exact hf.exchange hxy h
  | false =>
      obtain rfl := eq_of_mark_false hread
      rw [(mark_exchanges hmark).within hxy hread]
      exact hother h

theorem Exchanges.atMark (expected : List Char) (hmark : expected.length ≤ n)
    (hf : Exchanges n f) (hg : Exchanges n g) : Exchanges n fun text =>
      match mark expected text with
      | (true, rest) => f rest
      | (false, _) => g text where
  suffix text := by
    split
    · next rest heq => exact (hf.suffix rest).trans (mark_true_suffix heq)
    · exact hg.suffix text
  exchange hxy h := atMark_exchange expected hmark hxy hf (hg.exchange hxy) h

end AtMark

/-- A run of characters of a class. -/
theorem takeWhile_exchanges (accept : Char → Bool) :
    Exchanges 1 fun text => (text.takeWhile accept, text.dropWhile accept) := by
  refine (char?_exchanges accept).run (fun _ _ _ h => (char?_tail h).2) ?_ ?_
  · intro text c rest h
    obtain ⟨rfl, hc⟩ := eq_cons_of_char? h
    simp [hc]
  · intro text h
    rw [takeWhile_of_char?_none h, dropWhile_of_char?_none h]

end CssLex.Grammar
