import CssLex.Config.Discovery
import CssLex.Proofs.FileTree.Resolve

/-! The search for a configuration file finds the one in the deepest directory. Only a file whose
path is too long to be one is not seen. -/

namespace CssLex
namespace Config

/-! ## The nearest file -/

/-- There is a regular file under the name of configuration files in the directory that a path
names. It need not be readable. -/
def Holds (fs : FileSystem) (dir : Path) : Prop :=
  ∃ node, fs.root.node? (dir.names ++ [fileName]) = some node ∧ node.isRegular = true

/-- There is one, and its path is not too long. -/
def Offers (fs : FileSystem) (dir : Path) : Prop :=
  Holds fs dir ∧ (dir.join fileName).render.utf8ByteSize ≤ FileSystem.pathLimit

/-- The deepest of the ancestors of a path with some property, the path itself among them. -/
structure Nearest (P : Path → Prop) (p dir : Path) : Prop where
  ancestor : dir ∈ p.ancestors
  has : P dir
  deepest : ∀ other ∈ p.ancestors, dir.names.length < other.names.length → ¬ P other

variable {fs : FileSystem} {p q dir start : Path} {names : List String} {node : FileTree}

theorem Nearest.congr {P Q : Path → Prop} (h : Nearest P p dir)
    (heq : ∀ dir ∈ p.ancestors, (P dir ↔ Q dir)) : Nearest Q p dir where
  ancestor := h.ancestor
  has := (heq dir h.ancestor).mp h.has
  deepest other hother hdeeper hother' :=
    h.deepest other hother hdeeper ((heq other hother).mpr hother')

theorem isName_fileName : Path.isName fileName = true := by
  decide

/-- The first of the ancestors is the deepest. -/
theorem find?_ancestors_iff {accept : Path → Bool} (habsolute : p.isAbsolute = true) :
    p.ancestors.find? accept = some dir ↔ Nearest (fun dir => accept dir = true) p dir := by
  have hdepths := Path.ancestors_pairwise habsolute
  constructor
  · intro h
    obtain ⟨haccept, before, after, hall, hbefore⟩ := List.find?_eq_some_iff_append.mp h
    rw [hall, List.pairwise_append, List.pairwise_cons] at hdepths
    refine ⟨by simp [hall], haccept, ?_⟩
    intro other hother hdeeper
    rw [hall, List.mem_append, List.mem_cons] at hother
    rcases hother with hfirst | rfl | hafter
    · simpa using hbefore other hfirst
    · exact absurd hdeeper (Nat.lt_irrefl _)
    · exact absurd hdeeper (Nat.lt_asymm (hdepths.2.1.1 other hafter))
  · rintro ⟨hancestor, haccept, hdeepest⟩
    obtain ⟨before, after, hall⟩ := List.append_of_mem hancestor
    refine List.find?_eq_some_iff_append.mpr ⟨haccept, before, after, hall, ?_⟩
    intro other hother
    rw [hall, List.pairwise_append] at hdepths
    have hdeeper := hdepths.2.2 other hother dir List.mem_cons_self
    have hnot := hdeepest other (by simp [hall, hother]) hdeeper
    simpa using hnot

theorem isFile_join_iff (hroot : fs.root.WellFormed) (habsolute : dir.isAbsolute = true)
    (hup : ".." ∉ dir.names) : fs.isFile (dir.join fileName) = true ↔ Offers fs dir := by
  have hnames := Path.names_join (p := dir) isName_fileName
  have hjoined : ".." ∉ (dir.join fileName).names := by
    rw [hnames, List.mem_append, not_or]
    exact ⟨hup, by decide⟩
  simp only [FileSystem.isFile_eq_true_iff, FileSystem.resolve_eq_ok_iff hroot
    (Path.isAbsolute_join habsolute fileName) hjoined (Path.endsInDirectory_join isName_fileName),
    hnames, Offers, Holds]
  constructor
  · rintro ⟨_, node, ⟨hshort, rfl, hnode⟩, hregular⟩
    exact ⟨⟨node, hnode, hregular⟩, hshort⟩
  · rintro ⟨⟨node, hnode, hregular⟩, hshort⟩
    exact ⟨_, node, ⟨hshort, rfl, hnode⟩, hregular⟩

theorem isFile_ancestor_iff (hroot : fs.root.WellFormed) (habsolute : p.isAbsolute = true)
    (hup : ".." ∉ p.names) (hdir : dir ∈ p.ancestors) :
    fs.isFile (dir.join fileName) = true ↔ Offers fs dir := by
  refine isFile_join_iff hroot (Path.isAbsolute_of_mem_ancestors habsolute hdir) ?_
  exact fun hmem => hup ((Path.names_prefix_of_mem_ancestors habsolute hdir).subset hmem)

theorem find?_eq (fs : FileSystem) (p : Path) :
    find? fs p =
      (p.ancestors.find? fun dir => fs.isFile (dir.join fileName)).map (·.join fileName) := by
  rw [find?, List.find?_map]
  rfl

theorem find?_eq_some_iff_nearest (hroot : fs.root.WellFormed) (habsolute : p.isAbsolute = true)
    (hup : ".." ∉ p.names) :
    find? fs p = some q ↔ ∃ dir, Nearest (Offers fs) p dir ∧ q = dir.join fileName := by
  have hfile (dir : Path) (hdir : dir ∈ p.ancestors) :=
    isFile_ancestor_iff hroot habsolute hup hdir
  have hnearest (dir : Path) :
      Nearest (fun dir => fs.isFile (dir.join fileName) = true) p dir ↔
        Nearest (Offers fs) p dir :=
    ⟨fun h => h.congr hfile, fun h => h.congr fun dir hdir => (hfile dir hdir).symm⟩
  simp only [find?_eq, Option.map_eq_some_iff, find?_ancestors_iff habsolute, hnearest,
    eq_comm (a := q)]

theorem find?_eq_none_iff_not_offers (hroot : fs.root.WellFormed)
    (habsolute : p.isAbsolute = true) (hup : ".." ∉ p.names) :
    find? fs p = none ↔ ∀ dir ∈ p.ancestors, ¬ Offers fs dir := by
  rw [find?_eq, Option.map_eq_none_iff, List.find?_eq_none]
  exact forall₂_congr fun dir hdir => not_congr (isFile_ancestor_iff hroot habsolute hup hdir)

end Config
end CssLex
