import CssLex.Proofs.Config.Nearest

/-! The configuration file that governs an input is the nearest one, and what is wrong with it is
never passed over. -/

namespace CssLex
namespace Config

variable {fs : FileSystem} {p q start : Path} {names : List String} {node : FileTree}

/-! ## What a file gives -/

/-- What the node of a configuration file gives: its settings, or what is wrong with it. -/
inductive Gives (q : Path) : FileTree → Except ConfigError Config → Prop
  | locked : Gives q .locked (.error (.unreadable .permissionDenied))
  | noText {content : ByteArray} (htext : String.fromUTF8? content = none) :
      Gives q (.file content) (.error (.unreadable .invalidText))
  | malformed {content : ByteArray} {text : String} (htext : String.fromUTF8? content = some text)
      (hread : (Toml.read? text).bind ofEntries? = none) :
      Gives q (.file content) (.error .malformed)
  | emptyBuffer {content : ByteArray} {text : String} {config : Config}
      (htext : String.fromUTF8? content = some text)
      (hread : (Toml.read? text).bind ofEntries? = some config) (hbuffer : config.bufferSize = 0) :
      Gives q (.file content) (.error .emptyBuffer)
  | settings {content : ByteArray} {text : String} {config : Config}
      (htext : String.fromUTF8? content = some text)
      (hread : (Toml.read? text).bind ofEntries? = some config) (hbuffer : config.bufferSize ≠ 0) :
      Gives q (.file content) (.ok { config with source := some q })

theorem load_gives (h : fs.resolve q = .ok (names, node)) (hnode : node.isRegular = true) :
    Gives q node (load fs q) := by
  unfold load FileSystem.readText
  rw [h]
  cases node with
  | directory entries => cases hnode
  | locked => exact .locked
  | file content =>
      simp only [bind, Except.bind]
      cases htext : String.fromUTF8? content with
      | none => exact .noText htext
      | some text =>
          dsimp only
          unfold parse
          cases hread : (Toml.read? text).bind ofEntries? with
          | none => exact .malformed htext hread
          | some config =>
              by_cases hbuffer : config.bufferSize = 0
              · simp only [if_pos hbuffer]
                exact .emptyBuffer htext hread hbuffer
              · simp only [if_neg hbuffer]
                exact .settings htext hread hbuffer

theorem Gives.ne_defaults {result : Except ConfigError Config} (h : Gives q node result) :
    result ≠ .ok {} := by
  cases h <;> simp

/-! ## Where the search starts -/

/-- The directory from which the settings of a run are searched: that of an existing file, or the
current one if there is no file. A file is known by its absolute path, and by the path as it is
written only if the absolute one is too long to be a path. -/
inductive StartsFrom (fs : FileSystem) : Option Path → Path → Prop
  | current : StartsFrom fs none (.ofNames fs.current)
  | file {p : Path} {names : List String} {node : FileTree}
      (hfile : fs.resolve p = .ok (names, node)) (hregular : node.isRegular = true)
      (hshort : (Path.ofNames names).render.utf8ByteSize ≤ FileSystem.pathLimit) :
      StartsFrom fs (some p) (.ofNames names.dropLast)
  | written {p : Path} {names : List String} {node : FileTree}
      (hfile : fs.resolve p = .ok (names, node)) (hregular : node.isRegular = true)
      (hlong : FileSystem.pathLimit < (Path.ofNames names).render.utf8ByteSize) :
      StartsFrom fs (some p) (p.parent?.getD (.ofString "."))

theorem loadFor_of_isRegular (hfile : fs.resolve p = .ok (names, node))
    (hregular : node.isRegular = true) :
    loadFor fs p = loadFrom fs (p.parent?.getD (.ofString ".")) := by
  rw [loadFor, searchStart, FileSystem.isDirectory_of_isRegular hfile hregular]
  rfl

theorem loadFor_canonical (hfs : fs.WellFormed) (hfile : fs.resolve p = .ok (names, node))
    (hregular : node.isRegular = true)
    (hshort : (Path.ofNames names).render.utf8ByteSize ≤ FileSystem.pathLimit) :
    loadFor fs (.ofNames names) = loadFrom fs (.ofNames names.dropLast) := by
  have hnode := FileSystem.node?_of_resolve hfile
  have hne := hfs.ne_nil hnode hregular
  have hentries := (hfs.root.of_node? hnode).2
  have hparent := Path.parent?_ofNames (fun name hname => (hentries name hname).isName) hne
  have habsolute := FileSystem.resolve_ofNames hfs.root hnode hne hshort
  rw [loadFor_of_isRegular habsolute hregular, hparent, Option.getD_some]

/-- A search that found nothing leaves the defaults. -/
def orDefaults : Except ConfigError Config → Except ConfigError Config
  | .error (.notFound _) => .ok {}
  | found => found

/-- Without an explicit file, the settings come from where the search starts. -/
theorem StartsFrom.resolve_eq {input : Option Path} (hfs : fs.WellFormed)
    (h : StartsFrom fs input start) : resolve fs none input = orDefaults (loadFrom fs start) := by
  unfold resolve
  cases h with
  | current =>
      dsimp only
      generalize loadFrom fs (.ofNames fs.current) = found
      rfl
  | @file p names node hfile hregular hshort =>
      have hcanonical : fs.canonical? p = some (.ofNames names) := by
        simp only [FileSystem.canonical?, hfile, if_neg (Nat.not_lt_of_le hshort)]
      dsimp only
      rw [hcanonical, Option.getD_some, loadFor_canonical hfs hfile hregular hshort]
      generalize loadFrom fs (.ofNames names.dropLast) = found
      rfl
  | @written p names node hfile hregular hlong =>
      have hcanonical : fs.canonical? p = none := by
        simp only [FileSystem.canonical?, hfile, if_pos hlong]
      dsimp only
      rw [hcanonical, Option.getD_none, loadFor_of_isRegular hfile hregular]
      generalize loadFrom fs (p.parent?.getD (.ofString ".")) = found
      rfl

theorem orDefaults_of_gives {result : Except ConfigError Config} (h : Gives q node result) :
    orDefaults result = result := by
  cases h <;> rfl

theorem exists_node_of_find? (h : find? fs start = some q) :
    ∃ names node, fs.resolve q = .ok (names, node) ∧ node.isRegular = true :=
  FileSystem.isFile_eq_true_iff.mp (List.find?_some h)

/-- The file found is the only one that is loaded. -/
theorem StartsFrom.resolve_eq_load {input : Option Path} (hfs : fs.WellFormed)
    (h : StartsFrom fs input start) (hfind : find? fs start = some q) :
    resolve fs none input = load fs q := by
  obtain ⟨names, node, hnode, hregular⟩ := exists_node_of_find? hfind
  rw [h.resolve_eq hfs, loadFrom, hfind]
  exact orDefaults_of_gives (load_gives hnode hregular)

theorem StartsFrom.resolve_eq_defaults {input : Option Path} (hfs : fs.WellFormed)
    (h : StartsFrom fs input start) (hfind : find? fs start = none) :
    resolve fs none input = .ok {} := by
  rw [h.resolve_eq hfs, loadFrom, hfind]
  rfl

/-- An absolute path that never goes up is governed by the file in the deepest directory on the way
to it that has one with a path that is not too long. A run without an explicit file has the default
settings exactly if nothing is found from where the search starts, and else what the file found
gives, be it an error. -/
theorem nearest_governs (hfs : fs.WellFormed) :
    (∀ p : Path, p.isAbsolute = true → ".." ∉ p.names →
      p.ancestors.map Path.names = p.names.inits.reverse ∧
        (∀ q, find? fs p = some q ↔ ∃ dir, Nearest (Offers fs) p dir ∧ q = dir.join fileName) ∧
          (find? fs p = none ↔ ∀ dir ∈ p.ancestors, ¬ Offers fs dir)) ∧
      ∀ input start, StartsFrom fs input start →
        (resolve fs none input = .ok {} ↔ find? fs start = none) ∧
          ∀ q, find? fs start = some q →
            resolve fs none input = load fs q ∧
              ∃ names node, fs.resolve q = .ok (names, node) ∧
                Gives q node (resolve fs none input) := by
  constructor
  · intro p habsolute hup
    exact ⟨Path.ancestors_names habsolute,
      fun q => find?_eq_some_iff_nearest hfs.root habsolute hup,
      find?_eq_none_iff_not_offers hfs.root habsolute hup⟩
  · intro input start hstart
    have hload (q : Path) (hfind : find? fs start = some q) :
        resolve fs none input = load fs q ∧ ∃ names node, fs.resolve q = .ok (names, node) ∧
          Gives q node (resolve fs none input) := by
      obtain ⟨names, node, hnode, hregular⟩ := exists_node_of_find? hfind
      have heq := hstart.resolve_eq_load hfs hfind
      exact ⟨heq, names, node, hnode, heq ▸ load_gives hnode hregular⟩
    refine ⟨⟨fun hdefaults => ?_, hstart.resolve_eq_defaults hfs⟩, hload⟩
    cases hfind : find? fs start with
    | none => rfl
    | some q =>
        obtain ⟨-, names, node, -, hgives⟩ := hload q hfind
        exact absurd hdefaults hgives.ne_defaults

/-- A machine with a configuration file in the root and one below it that must not be read. The
style sheet lies still deeper. -/
def guarded : FileSystem :=
  { root := .directory
      [(fileName, .file ByteArray.empty), ("site", .directory
        [(fileName, .locked), ("css", .directory [("a.css", .file ByteArray.empty)])])]
    current := ["site", "css"] }

theorem wellFormed_guarded : guarded.WellFormed where
  root := by
    have hnames : EntryName fileName ∧ EntryName "site" ∧ EntryName "css" ∧ EntryName "a.css" := by
      decide
    simp [guarded, hnames]
  current := ⟨_, rfl⟩

theorem resolve_guarded : guarded.resolve (.ofString "../css/a.css") =
    .ok (["site", "css", "a.css"], .file ByteArray.empty) := by
  have hnames : (Path.ofString "../css/a.css").names = ["..", "css", "a.css"] := by decide
  rw [FileSystem.resolve_eq_ok_iff_follow, FileSystem.follow_eq_ok_iff, hnames]
  exact ⟨by decide, by decide, by decide, rfl, rfl, by decide⟩

theorem nearest_guarded :
    Nearest (Offers guarded) (.ofString "/site/css") (.ofString "/site") where
  ancestor := by decide
  has := ⟨⟨.locked, rfl, rfl⟩, by decide⟩
  deepest := by
    have hancestors : (Path.ofString "/site/css").ancestors =
        [.ofString "/site/css", .ofString "/site", .ofString "/"] := by decide
    rw [hancestors]
    simp only [List.forall_mem_cons, List.not_mem_nil, false_implies, implies_true, and_true]
    refine ⟨fun _ hoffers => ?_, fun hdeeper => absurd hdeeper (by decide),
      fun hdeeper => absurd hdeeper (by decide)⟩
    obtain ⟨⟨node, hnode, -⟩, -⟩ := hoffers
    have hnone : guarded.root.node? ["site", "css", fileName] = none := rfl
    have hsome : guarded.root.node? ["site", "css", fileName] = some node := hnode
    rw [hnone] at hsome
    cases hsome

/-- The file above the style sheet is found and cannot be read. The one in the root is no way
out. -/
theorem nearest_governs_of_guarded :
    find? guarded (.ofString "/site/css") = some (.ofString "/site/Stylescan.toml") ∧
      resolve guarded none (some (.ofString "../css/a.css")) =
        .error (.unreadable .permissionDenied) := by
  have hgoverns := nearest_governs wellFormed_guarded
  have hfind : find? guarded (.ofString "/site/css") = some (.ofString "/site/Stylescan.toml") :=
    ((hgoverns.1 (.ofString "/site/css") (by decide) (by decide)).2.1 _).mpr
      ⟨_, nearest_guarded, by decide⟩
  refine ⟨hfind, ?_⟩
  have hstart := StartsFrom.file resolve_guarded rfl (by decide)
  obtain ⟨-, names, node, hnode, hgives⟩ := (hgoverns.2 _ _ hstart).2 _ hfind
  have hresolve : guarded.resolve (.ofString "/site/Stylescan.toml") =
      .ok (["site", fileName], .locked) := by
    rw [FileSystem.resolve_eq_ok_iff wellFormed_guarded.root (by decide) (by decide) (by decide)]
    exact ⟨by decide, by decide, rfl⟩
  rw [hresolve, Except.ok.injEq, Prod.mk.injEq] at hnode
  obtain ⟨rfl, rfl⟩ := hnode
  generalize resolve guarded none (some (.ofString "../css/a.css")) = result at hgives
  cases hgives
  rfl

/-! ## Files that no path reaches -/

/-- A machine with a configuration file in the root and one in a directory below it. -/
def twoFiles : FileSystem :=
  { root := .directory
      [(fileName, .file ByteArray.empty), ("a", .directory [(fileName, .file ByteArray.empty)])]
    current := [] }

theorem wellFormed_twoFiles : twoFiles.WellFormed where
  root := by
    have hnames : EntryName fileName ∧ EntryName "a" := by decide
    simp [twoFiles, hnames]
  current := ⟨_, rfl⟩

/-- The directory below the root with slashes behind its name. -/
def slashed (count : Nat) : Path := .ofString ("/a" ++ String.ofList (List.replicate count '/'))

theorem slashed_eq (count : Nat) : slashed count = ⟨["", "a"] ++ List.replicate count ""⟩ := by
  have hchars : ("/a" ++ String.ofList (List.replicate count '/')).toList =
      '/' :: 'a' :: List.replicate count '/' := by
    simp
  rw [slashed, Path.ofString, hchars, Path.split, if_pos rfl, Path.split, if_neg (by decide),
    Path.split_replicate]
  simp

theorem isAbsolute_slashed (count : Nat) : (slashed count).isAbsolute = true := by
  simp [slashed_eq, Path.isAbsolute_iff]

theorem names_slashed (count : Nat) : (slashed count).names = ["a"] := by
  rw [slashed_eq, Path.names_append_replicate]
  decide

theorem ancestors_slashed (count : Nat) :
    (slashed count).ancestors = [slashed count, .ofString "/"] := by
  have hstems : (slashed count).stems = [⟨["", "a"]⟩] := by
    rw [slashed_eq, Path.stems_append_replicate]
    decide
  have horigins : (slashed count).origins = [.ofString "/"] := by
    rw [Path.origins, if_pos (isAbsolute_slashed count)]
    decide
  rw [Path.ancestors, hstems, horigins]
  rfl

theorem nearest_slashed (count : Nat) :
    Nearest (Holds twoFiles) (slashed count) (slashed count) where
  ancestor := List.mem_cons_self
  has := by
    refine ⟨.file ByteArray.empty, ?_, rfl⟩
    rw [names_slashed]
    rfl
  deepest := by
    have hroot : (Path.ofString "/").names = [] := by decide
    simp [ancestors_slashed, names_slashed, hroot]

/-- With enough slashes, the file in the directory has too long a path, and the one in the root is
found. -/
theorem find?_slashed {count : Nat} (h : FileSystem.pathLimit ≤ count) :
    find? twoFiles (slashed count) = some (.ofString "/Stylescan.toml") := by
  have hlong : ¬ Offers twoFiles (slashed count) := by
    rintro ⟨-, hshort⟩
    have hpieces : (slashed count).pieces.length = count + 2 := by
      rw [slashed_eq]
      simp
    have hjoin := Path.length_le_join (slashed count) fileName
    have hrender := Path.length_le_intercalate ((slashed count).join fileName).pieces
    rw [Path.render] at hshort
    omega
  have hroot : Offers twoFiles (.ofString "/") := ⟨⟨.file ByteArray.empty, rfl, rfl⟩, by decide⟩
  rw [find?_eq_some_iff_nearest wellFormed_twoFiles.root (isAbsolute_slashed count)
    (by simp [names_slashed])]
  refine ⟨.ofString "/", ⟨by simp [ancestors_slashed], hroot, ?_⟩, by decide⟩
  simp [ancestors_slashed, hlong]

/-- Directories below one another. The deepest has a style sheet in it. -/
def cellar : Nat → FileTree
  | 0 => .directory [("a.css", .file ByteArray.empty)]
  | depth + 1 => .directory [("d", cellar depth)]

/-- A machine with a configuration file in the root, used from the deepest directory below it. -/
def deepSheet (depth : Nat) : FileSystem :=
  { root := .directory [(fileName, .file ByteArray.empty), ("d", cellar depth)]
    current := "d" :: List.replicate depth "d" }

theorem wellFormed_cellar (depth : Nat) : (cellar depth).WellFormed := by
  induction depth with
  | zero =>
      have hname : EntryName "a.css" := by decide
      simp [cellar, hname]
  | succ depth ih =>
      have hname : EntryName "d" := by decide
      simp [cellar, hname, ih]

theorem node?_cellar (depth : Nat) : (cellar depth).node? (List.replicate depth "d") =
    some (.directory [("a.css", .file ByteArray.empty)]) := by
  induction depth with
  | zero => rfl
  | succ depth ih => exact ih

theorem node?_current (depth : Nat) : (deepSheet depth).root.node? (deepSheet depth).current =
    some (.directory [("a.css", .file ByteArray.empty)]) :=
  node?_cellar depth

theorem wellFormed_deepSheet (depth : Nat) : (deepSheet depth).WellFormed where
  root := by
    have hnames : EntryName fileName ∧ EntryName "d" := by decide
    simp [deepSheet, hnames, wellFormed_cellar]
  current := ⟨_, node?_current depth⟩

/-- A relative path of one name leads to what is in the current directory. -/
theorem foldlM_deepSheet {depth : Nat} {name : String} {there : List String} (hname : name ≠ "..") :
    [name].foldlM (deepSheet depth).step (deepSheet depth).current = .ok there ↔
      there = (deepSheet depth).current ++ [name] ∧
        [("a.css", FileTree.file ByteArray.empty)].lookup name ≠ none := by
  rw [FileSystem.foldlM_step_eq_ok_iff (wellFormed_deepSheet depth).root (by simp [node?_current])
    (by simpa using hname.symm), FileTree.node?_append, node?_current, Option.bind_some,
    FileTree.node?_singleton]

theorem resolve_deepSheet (depth : Nat) : (deepSheet depth).resolve (.ofString "a.css") =
    .ok ((deepSheet depth).current ++ ["a.css"], .file ByteArray.empty) := by
  have hnames : (Path.ofString "a.css").names = ["a.css"] := by decide
  have hrelative : (Path.ofString "a.css").isAbsolute = false := by decide
  have hnode : (deepSheet depth).root.node? ((deepSheet depth).current ++ ["a.css"]) =
      some (.file ByteArray.empty) := by
    rw [FileTree.node?_append, node?_current]
    rfl
  rw [FileSystem.resolve_eq_ok_iff_follow, FileSystem.follow_eq_ok_iff, hnames, hrelative]
  exact ⟨by decide, by decide, by decide, (foldlM_deepSheet (by decide)).mpr ⟨rfl, nofun⟩, hnode,
    by decide⟩

/-- From the deepest directory upwards, the file in the root is found. -/
theorem find?_current (depth : Nat) :
    find? (deepSheet depth) (.ofNames (deepSheet depth).current) ≠ none := by
  have hnames : (Path.ofNames (deepSheet depth).current).names = (deepSheet depth).current := by
    refine Path.names_ofNames fun name hname => ?_
    have hd : name = "d" := by
      rw [deepSheet, ← List.replicate_succ] at hname
      exact List.eq_of_mem_replicate hname
    rw [hd]
    decide
  have hup : ".." ∉ (deepSheet depth).current := by
    simp [deepSheet]
  have hroot : Offers (deepSheet depth) (.ofNames []) :=
    ⟨⟨.file ByteArray.empty, rfl, rfl⟩, by decide⟩
  have habsolute := Path.isAbsolute_ofNames (deepSheet depth).current
  have hne : (Path.ofNames (deepSheet depth).current).names ≠ [] := by
    rw [hnames]
    exact List.cons_ne_nil _ _
  rw [ne_eq, find?_eq_none_iff_not_offers (wellFormed_deepSheet depth).root habsolute
    (hnames.symm ▸ hup)]
  exact fun hnone => hnone _ (Path.root_mem_ancestors habsolute hne) hroot

/-- From the current directory as it is written, nothing is above it. -/
theorem find?_beside (depth : Nat) : find? (deepSheet depth) (.ofString "") = none := by
  have hancestors : (Path.ofString "").ancestors = [.ofString ""] := by decide
  have hjoin : (Path.ofString "").join fileName = .ofString "Stylescan.toml" := by decide
  have hfile : (deepSheet depth).isFile (.ofString "Stylescan.toml") ≠ true := by
    have hnames : (Path.ofString "Stylescan.toml").names = [fileName] := by decide
    have hrelative : (Path.ofString "Stylescan.toml").isAbsolute = false := by decide
    rw [ne_eq, FileSystem.isFile_eq_true_iff]
    rintro ⟨names, node, hresolve, -⟩
    obtain ⟨hthere, -⟩ :=
      FileSystem.follow_eq_ok_iff.mp (FileSystem.resolve_eq_ok_iff_follow.mp hresolve).2.2.2
    rw [hnames, hrelative] at hthere
    exact ((foldlM_deepSheet (by decide)).mp hthere).2 (by decide)
  rw [find?_eq, hancestors, List.find?_singleton, hjoin, if_neg hfile]
  rfl

/-- A file whose absolute path is too long is not governed from above. -/
theorem resolve_beside {depth : Nat} (h : FileSystem.pathLimit ≤ depth) :
    resolve (deepSheet depth) none (some (.ofString "a.css")) = .ok {} := by
  have hlong : FileSystem.pathLimit <
      (Path.ofNames ((deepSheet depth).current ++ ["a.css"])).render.utf8ByteSize := by
    have hpieces : Path.ofNames ((deepSheet depth).current ++ ["a.css"]) =
        ⟨"" :: ((deepSheet depth).current ++ ["a.css"])⟩ := Path.pieces_ofNames (by simp)
    have hcount : ("" :: ((deepSheet depth).current ++ ["a.css"])).length = depth + 3 := by
      simp [deepSheet]
    have hrender := Path.length_le_intercalate ("" :: ((deepSheet depth).current ++ ["a.css"]))
    simp only [hpieces, Path.render]
    omega
  have hparent : (Path.ofString "a.css").parent?.getD (.ofString ".") = .ofString "" := by decide
  have hstart := StartsFrom.written (resolve_deepSheet depth) rfl hlong
  rw [hparent] at hstart
  exact hstart.resolve_eq_defaults (wellFormed_deepSheet depth) (find?_beside depth)

/-- The nearest file is passed over if its path is too long, and so is every file above an input
whose absolute path is too long. -/
theorem passed_over :
    (twoFiles.WellFormed ∧ (slashed 4100).isAbsolute = true ∧ (slashed 4100).names = ["a"] ∧
      Nearest (Holds twoFiles) (slashed 4100) (slashed 4100) ∧
        find? twoFiles (slashed 4100) = some (.ofString "/Stylescan.toml") ∧
          .ofString "/Stylescan.toml" ≠ (slashed 4100).join fileName) ∧
      (deepSheet 4100).WellFormed ∧
        (deepSheet 4100).resolve (.ofString "a.css") =
          .ok ((deepSheet 4100).current ++ ["a.css"], .file ByteArray.empty) ∧
          find? (deepSheet 4100) (.ofNames (deepSheet 4100).current) ≠ none ∧
            resolve (deepSheet 4100) none (some (.ofString "a.css")) = .ok {} := by
  have hother : .ofString "/Stylescan.toml" ≠ (slashed 4100).join fileName := by
    intro heq
    have hnames := congrArg Path.names heq
    rw [Path.names_join isName_fileName, names_slashed] at hnames
    exact absurd hnames (by decide)
  exact ⟨⟨wellFormed_twoFiles, isAbsolute_slashed _, names_slashed _, nearest_slashed _,
    find?_slashed (by decide), hother⟩, wellFormed_deepSheet _, resolve_deepSheet _,
    find?_current _, resolve_beside (by decide)⟩

end Config
end CssLex
