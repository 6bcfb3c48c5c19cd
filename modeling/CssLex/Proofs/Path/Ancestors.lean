import Mathlib.Data.List.Infix
import Mathlib.Data.List.Induction
import CssLex.Path

/-! The names of paths: where a path leads after a name is put behind it or one is taken off. -/

namespace CssLex
namespace Path

/-! ## Names put behind a path -/

variable {p dir : Path} {name : String} {pieces front : List String}

theorem names_concat (front : List String) (piece : String) :
    names ⟨front ++ [piece]⟩ =
      if isName piece then names ⟨front⟩ ++ [piece] else names ⟨front⟩ := by
  simp only [names, List.filter_append, List.filter_singleton]
  cases isName piece <;> simp

/-- A name takes the place of an empty last piece. -/
theorem join_cases (p : Path) (name : String) :
    ∃ front, p.join name = ⟨front ++ [name]⟩ ∧ (p.pieces = front ∨ p.pieces = front ++ [""]) := by
  unfold join
  split
  · next hlast => exact ⟨p.pieces.dropLast, rfl, .inr (List.dropLast_append_getLast? "" hlast).symm⟩
  · exact ⟨p.pieces, rfl, .inl rfl⟩

theorem names_join (h : isName name = true) : (p.join name).names = p.names ++ [name] := by
  obtain ⟨front, hjoin, hpieces⟩ := join_cases p name
  have hfront : names ⟨front⟩ = p.names := by
    obtain ⟨pieces⟩ := p
    rcases hpieces with rfl | rfl
    · rfl
    · exact (names_concat front "").symm
  rw [hjoin, names_concat, if_pos h, hfront]

theorem length_le_join (p : Path) (name : String) :
    p.pieces.length ≤ (p.join name).pieces.length := by
  obtain ⟨front, hjoin, hpieces⟩ := join_cases p name
  rw [hjoin]
  rcases hpieces with hpieces | hpieces <;> simp [hpieces]

theorem isAbsolute_iff : p.isAbsolute = true ↔ p.pieces.head? = some "" ∧ 1 < p.pieces.length := by
  simp [isAbsolute]

/-- A path from the root, however it goes on. -/
theorem isAbsolute_concat (hhead : front.head? = some "") (name : String) :
    isAbsolute ⟨front ++ [name]⟩ = true := by
  obtain ⟨more, rfl⟩ := List.head?_eq_some_iff.mp hhead
  rw [isAbsolute_iff]
  exact ⟨rfl, by simp⟩

theorem isAbsolute_join (h : p.isAbsolute = true) (name : String) :
    (p.join name).isAbsolute = true := by
  obtain ⟨front, hjoin, hpieces⟩ := join_cases p name
  obtain ⟨hhead, hlength⟩ := isAbsolute_iff.mp h
  rw [hjoin]
  refine isAbsolute_concat ?_ name
  rcases hpieces with hpieces | hpieces
  · rw [← hpieces]
    exact hhead
  · cases front with
    | nil => simp [hpieces] at hlength
    | cons first front => simpa [hpieces] using hhead

theorem endsInDirectory_concat (h : isName name = true) :
    endsInDirectory ⟨front ++ [name]⟩ = false := by
  simp [endsInDirectory, h]

theorem endsInDirectory_join (h : isName name = true) : (p.join name).endsInDirectory = false := by
  obtain ⟨front, hjoin, -⟩ := join_cases p name
  rw [hjoin, endsInDirectory_concat h]

/-! ## Names taken off a path -/

theorem prefixesOfReversed_concat (front : List String) (piece : String) :
    prefixesOfReversed (front ++ [piece]).reverse =
      (front ++ [piece]) :: prefixesOfReversed front.reverse := by
  simp [prefixesOfReversed]

theorem stems_nil : stems ⟨[]⟩ = [] := by
  decide

theorem stems_concat (front : List String) (piece : String) :
    stems ⟨front ++ [piece]⟩ =
      if isName piece then ⟨front ++ [piece]⟩ :: stems ⟨front⟩ else stems ⟨front⟩ := by
  simp only [stems, prefixesOfReversed_concat, List.filter_cons, List.getLast?_concat,
    Option.any_some]
  split <;> rfl

/-- Slashes at the end of a path add nothing to it. -/
theorem stems_append_replicate (front : List String) (count : Nat) :
    stems ⟨front ++ List.replicate count ""⟩ = stems ⟨front⟩ := by
  induction count with
  | zero => rw [List.replicate_zero, List.append_nil]
  | succ count ih =>
      rw [List.replicate_succ', ← List.append_assoc, stems_concat, ih]
      rfl

theorem names_append_replicate (front : List String) (count : Nat) :
    names ⟨front ++ List.replicate count ""⟩ = names ⟨front⟩ := by
  simp [names, isName, List.filter_append]

theorem inits_concat (front : List String) (name : String) :
    (front ++ [name]).inits = front.inits ++ [front ++ [name]] := by
  simp [List.inits_append]

/-- The parts up to one of the names have all names up to there. -/
theorem stems_names (p : Path) : p.stems.map names ++ [[]] = p.names.inits.reverse := by
  obtain ⟨pieces⟩ := p
  induction pieces using List.reverseRecOn with
  | nil => rfl
  | append_singleton front piece ih =>
      rw [stems_concat, names_concat]
      split
      · next hname =>
        rw [List.map_cons, List.cons_append, ih, names_concat, if_pos hname, inits_concat,
          List.reverse_append, List.reverse_singleton, List.singleton_append]
      · exact ih

theorem eq_concat_of_mem_stems (h : dir ∈ p.stems) :
    ∃ front name, dir = ⟨front ++ [name]⟩ ∧ isName name = true ∧ front ++ [name] <+: p.pieces := by
  obtain ⟨pieces⟩ := p
  induction pieces using List.reverseRecOn with
  | nil => simp [stems_nil] at h
  | append_singleton pieces piece ih =>
      have hshorter (hdir : dir ∈ stems ⟨pieces⟩) :
          ∃ front name, dir = ⟨front ++ [name]⟩ ∧ isName name = true ∧
            front ++ [name] <+: pieces ++ [piece] := by
        obtain ⟨front, name, heq, hname, hfront⟩ := ih hdir
        exact ⟨front, name, heq, hname, hfront.trans (List.prefix_append _ _)⟩
      rw [stems_concat] at h
      split at h
      · next hname =>
        rcases List.mem_cons.mp h with heq | hdir
        · exact ⟨pieces, piece, heq, hname, List.prefix_rfl⟩
        · exact hshorter hdir
      · exact hshorter h

theorem isAbsolute_of_mem_ancestors (h : p.isAbsolute = true) (hdir : dir ∈ p.ancestors) :
    dir.isAbsolute = true := by
  rcases List.mem_cons.mp hdir with rfl | hdir
  · exact h
  rcases List.mem_append.mp (List.mem_of_mem_tail hdir) with hdir | hdir
  · obtain ⟨front, name, rfl, hname, more, hmore⟩ := eq_concat_of_mem_stems hdir
    have hhead := (isAbsolute_iff.mp h).1
    rw [← hmore] at hhead
    cases front with
    | nil =>
        -- the empty piece in front is no name
        cases hhead
        cases hname
    | cons first front => exact isAbsolute_concat (by simpa using hhead) name
  · rw [origins, if_pos h, List.mem_singleton] at hdir
    rw [hdir]
    rfl

/-- From the path down to the root, each of its ancestors has one name less. -/
theorem ancestors_names (h : p.isAbsolute = true) :
    p.ancestors.map names = p.names.inits.reverse := by
  have horigins : p.origins = [⟨["", ""]⟩] := by rw [origins, if_pos h]
  have hroot : names ⟨["", ""]⟩ = [] := by decide
  have hall : (p.stems ++ p.origins).map names = p.names.inits.reverse := by
    rw [List.map_append, horigins, List.map_singleton, hroot, stems_names]
  have hhead : p.names.inits.reverse.head? = some p.names := by
    simp [List.getLast?_eq_getElem?, List.getElem_inits]
  obtain ⟨more, hmore⟩ := List.head?_eq_some_iff.mp hhead
  rw [ancestors, List.map_cons, List.map_tail, hall, hmore, List.tail_cons]

theorem names_prefix_of_mem_ancestors (h : p.isAbsolute = true) (hdir : dir ∈ p.ancestors) :
    dir.names <+: p.names := by
  have hnames := List.mem_map_of_mem (f := names) hdir
  rw [ancestors_names h, List.mem_reverse, List.mem_inits] at hnames
  exact hnames

theorem inits_pairwise (names : List String) :
    names.inits.Pairwise fun shorter longer => shorter.length < longer.length := by
  rw [List.pairwise_iff_getElem]
  intro i j hi hj hij
  rw [List.length_inits] at hj
  simp only [List.getElem_inits, List.length_take]
  omega

/-- Among the ancestors of a path, deeper ones come first. -/
theorem ancestors_pairwise (h : p.isAbsolute = true) :
    p.ancestors.Pairwise fun dir above => above.names.length < dir.names.length := by
  have hlengths := List.pairwise_reverse.mpr (inits_pairwise p.names)
  rw [← ancestors_names h, List.pairwise_map] at hlengths
  exact hlengths

theorem root_mem_ancestors (h : p.isAbsolute = true) (hne : p.names ≠ []) :
    ofNames [] ∈ p.ancestors := by
  have horigins : p.origins = [ofNames []] := by
    rw [origins, if_pos h]
    rfl
  cases hstems : p.stems with
  | nil =>
      have hlength := congrArg List.length (stems_names p)
      rw [hstems, List.length_reverse, List.length_inits] at hlength
      exact absurd (List.eq_nil_of_length_eq_zero (Nat.succ.inj hlength).symm) hne
  | cons stem more => simp [ancestors, hstems, horigins]

/-! ## Absolute paths from their names -/

variable {through : List String}

theorem pieces_ofNames (h : through ≠ []) : ofNames through = ⟨"" :: through⟩ := by
  rw [ofNames, if_neg h]

theorem names_ofNames (h : ∀ name ∈ through, isName name = true) :
    (ofNames through).names = through := by
  cases through with
  | nil => decide
  | cons first more =>
      rw [pieces_ofNames (List.cons_ne_nil first more)]
      exact List.filter_eq_self.mpr h

theorem isAbsolute_ofNames (through : List String) : (ofNames through).isAbsolute = true := by
  cases through with
  | nil => decide
  | cons first more => simp [pieces_ofNames, isAbsolute_iff]

/-- The parent of an absolute path has all names but the last. -/
theorem parent?_ofNames (h : ∀ name ∈ through, isName name = true) (hne : through ≠ []) :
    (ofNames through).parent? = some (ofNames through.dropLast) := by
  obtain ⟨front, name, rfl⟩ := List.eq_nil_or_concat' through |>.resolve_left hne
  have hname : isName name = true := h name List.mem_concat_self
  have hpieces : ofNames (front ++ [name]) = ⟨("" :: front) ++ [name]⟩ := pieces_ofNames hne
  have horigins : origins ⟨("" :: front) ++ [name]⟩ = [ofNames []] := by
    rw [origins, if_pos (isAbsolute_concat rfl name)]
    rfl
  have hparent : parent? ⟨("" :: front) ++ [name]⟩ =
      (stems ⟨"" :: front⟩ ++ [ofNames []]).head? := by
    rw [parent?, ancestors, horigins, stems_concat, if_pos hname, List.getElem?_cons_succ,
      ← List.head?_eq_getElem?]
    rfl
  rw [List.dropLast_concat, hpieces, hparent]
  rcases List.eq_nil_or_concat' front with rfl | ⟨above, last, rfl⟩
  · rfl
  · have hlast : isName last = true := h last (by simp)
    have hstems := stems_concat ("" :: above) last
    rw [if_pos hlast] at hstems
    have habove : ofNames (above ++ [last]) = ⟨("" :: above) ++ [last]⟩ := pieces_ofNames (by simp)
    rw [habove, ← List.cons_append, hstems, List.cons_append, List.head?_cons]

/-! ## Written paths -/

theorem mem_intercalate {c : Char} {pieces : List String}
    (h : c ∈ (String.intercalate "/" pieces).toList) :
    c = '/' ∨ ∃ piece ∈ pieces, c ∈ piece.toList := by
  induction pieces with
  | nil => simp at h
  | cons piece rest ih =>
      cases rest with
      | nil =>
          rw [String.intercalate_singleton] at h
          exact .inr ⟨piece, List.mem_singleton_self piece, h⟩
      | cons next rest =>
          rw [String.intercalate_cons_cons, String.toList_append, String.toList_append,
            List.mem_append, List.mem_append] at h
          rcases h with (hpiece | hslash) | hrest
          · exact .inr ⟨piece, List.mem_cons_self, hpiece⟩
          · exact .inl (by simpa using hslash)
          · rcases ih hrest with hslash | ⟨other, hother, hc⟩
            · exact .inl hslash
            · exact .inr ⟨other, List.mem_cons_of_mem piece hother, hc⟩

/-- What is written in a path stands in one of its names, but for slashes and dots. -/
theorem mem_names_of_mem_render {c : Char} (h : c ∈ p.render.toList) (hslash : c ≠ '/')
    (hdot : c ≠ '.') : ∃ name ∈ p.names, c ∈ name.toList := by
  rcases mem_intercalate h with heq | ⟨piece, hpiece, hc⟩
  · exact absurd heq hslash
  · refine ⟨piece, List.mem_filter.mpr ⟨hpiece, ?_⟩, hc⟩
    have hne : piece ≠ "" := by
      rintro rfl
      simp at hc
    have hdots : piece ≠ "." := by
      rintro rfl
      exact hdot (by simpa using hc)
    simp [isName, hne, hdots]

/-- A path has a slash between any two of its pieces. -/
theorem length_le_intercalate (pieces : List String) :
    pieces.length ≤ (String.intercalate "/" pieces).utf8ByteSize + 1 := by
  induction pieces with
  | nil => exact Nat.zero_le _
  | cons piece rest ih =>
      cases rest with
      | nil => exact Nat.le_add_left 1 _
      | cons next rest =>
          have hslash : "/".utf8ByteSize = 1 := rfl
          rw [String.intercalate_cons_cons, String.utf8ByteSize_append, String.utf8ByteSize_append,
            List.length_cons, hslash]
          omega

theorem render_ne_empty (h : p.isAbsolute = true) : p.render ≠ "" := by
  intro hempty
  have hlength := length_le_intercalate p.pieces
  rw [show String.intercalate "/" p.pieces = "" from hempty] at hlength
  exact absurd (isAbsolute_iff.mp h).2 (Nat.not_lt_of_le hlength)

theorem split_replicate (count : Nat) :
    split (List.replicate count '/') = [] :: List.replicate count [] := by
  induction count with
  | zero => rfl
  | succ count ih =>
      rw [List.replicate_succ, split, if_pos rfl, ih]
      rfl

end Path
end CssLex
