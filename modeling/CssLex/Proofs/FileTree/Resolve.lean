import CssLex.FileTree
import CssLex.Proofs.Path.Ancestors

/-! Where paths lead in a well-formed tree: an absolute path that never goes up leads to the node at
the end of its names. -/

namespace CssLex

/-! ## Well-formed trees -/

/-- What the entry of a directory may be called. -/
structure EntryName (name : String) : Prop where
  isName : Path.isName name = true
  notUp : name ≠ ".."
  noSlash : '/' ∉ name.toList
  noNul : '\x00' ∉ name.toList
  short : name.utf8ByteSize ≤ FileSystem.nameLimit

theorem entryName_iff {name : String} : EntryName name ↔
    Path.isName name = true ∧ name ≠ ".." ∧ '/' ∉ name.toList ∧ '\x00' ∉ name.toList ∧
      name.utf8ByteSize ≤ FileSystem.nameLimit :=
  ⟨fun ⟨hname, hup, hslash, hnul, hshort⟩ => ⟨hname, hup, hslash, hnul, hshort⟩,
    fun ⟨hname, hup, hslash, hnul, hshort⟩ => ⟨hname, hup, hslash, hnul, hshort⟩⟩

instance (name : String) : Decidable (EntryName name) := decidable_of_iff _ entryName_iff.symm

namespace FileTree

/-- A tree whose names all can be in a directory. -/
inductive WellFormed : FileTree → Prop
  | file (content : ByteArray) : WellFormed (file content)
  | locked : WellFormed locked
  | directory {entries : List (String × FileTree)} (hnames : ∀ entry ∈ entries, EntryName entry.1)
      (htrees : ∀ entry ∈ entries, WellFormed entry.2) : WellFormed (directory entries)

@[simp] theorem wellFormed_file (content : ByteArray) : (file content).WellFormed := .file content

@[simp] theorem wellFormed_locked : locked.WellFormed := .locked

theorem wellFormed_directory {entries : List (String × FileTree)} :
    (directory entries).WellFormed ↔ ∀ entry ∈ entries, EntryName entry.1 ∧ entry.2.WellFormed := by
  constructor
  · rintro (_ | _ | ⟨hnames, htrees⟩)
    exact fun entry hentry => ⟨hnames entry hentry, htrees entry hentry⟩
  · intro h
    exact .directory (fun entry hentry => (h entry hentry).1) fun entry hentry => (h entry hentry).2

@[simp] theorem wellFormed_nil : (directory []).WellFormed := .directory nofun nofun

@[simp] theorem wellFormed_cons {name : String} {tree : FileTree}
    {entries : List (String × FileTree)} : (directory ((name, tree) :: entries)).WellFormed ↔
      (EntryName name ∧ tree.WellFormed) ∧ (directory entries).WellFormed := by
  simp only [wellFormed_directory, List.forall_mem_cons]

/-- Whether a node is a regular file, readable or not. -/
def isRegular : FileTree → Bool
  | file _ | locked => true
  | directory _ => false

variable {tree node : FileTree} {name : String} {front names : List String}

theorem node?_nil (tree : FileTree) : tree.node? [] = some tree := by
  cases tree <;> rfl

theorem node?_append (tree : FileTree) (front back : List String) :
    tree.node? (front ++ back) = (tree.node? front).bind fun node => node.node? back := by
  induction front generalizing tree with
  | nil => rw [node?_nil, List.nil_append, Option.bind_some]
  | cons name front ih =>
      cases tree with
      | file content => rfl
      | locked => rfl
      | directory entries =>
          rw [List.cons_append, node?, node?]
          cases entries.lookup name with
          | none => rfl
          | some tree => exact ih tree

theorem node?_singleton (tree : FileTree) (name : String) :
    tree.node? [name] = match tree with
      | directory entries => entries.lookup name
      | _ => none := by
  cases tree with
  | file content => rfl
  | locked => rfl
  | directory entries =>
      cases hlookup : entries.lookup name <;> simp [node?, hlookup]

theorem WellFormed.of_lookup {entries : List (String × FileTree)}
    (h : WellFormed (.directory entries)) (hlookup : entries.lookup name = some node) :
    EntryName name ∧ node.WellFormed := by
  obtain ⟨before, after, rfl, -⟩ := List.lookup_eq_some_iff.mp hlookup
  exact wellFormed_directory.mp h (name, node) (by simp)

/-- What a well-formed tree has below it is well-formed, and so are all names on the way there. -/
theorem WellFormed.of_node? (h : tree.WellFormed) (hnode : tree.node? names = some node) :
    node.WellFormed ∧ ∀ name ∈ names, EntryName name := by
  induction names generalizing tree with
  | nil =>
      rw [node?_nil, Option.some.injEq] at hnode
      exact ⟨hnode ▸ h, nofun⟩
  | cons name names ih =>
      rw [← List.singleton_append, node?_append, node?_singleton] at hnode
      obtain ⟨below, hlookup, hbelow⟩ := Option.bind_eq_some_iff.mp hnode
      cases tree with
      | file content => cases hlookup
      | locked => cases hlookup
      | directory entries =>
          obtain ⟨hname, hwell⟩ := h.of_lookup hlookup
          obtain ⟨hfound, hnames⟩ := ih hwell hbelow
          exact ⟨hfound, List.forall_mem_cons.mpr ⟨hname, hnames⟩⟩

end FileTree

namespace FileSystem

/-- A well-formed tree, in which there is the current directory. -/
structure WellFormed (fs : FileSystem) : Prop where
  root : fs.root.WellFormed
  current : ∃ entries, fs.root.node? fs.current = some (.directory entries)

variable {fs : FileSystem} {p : Path} {here there names : List String} {name : String}
  {node : FileTree}

/-! ## One step and many -/

/-- A name leads from a directory to its entry and from nowhere else. -/
theorem step_eq_ok_iff (hroot : fs.root.WellFormed) (hname : name ≠ "..") :
    fs.step here name = .ok there ↔
      there = here ++ [name] ∧ fs.root.node? (here ++ [name]) ≠ none := by
  rw [FileTree.node?_append]
  unfold step
  cases hhere : fs.root.node? here with
  | none => simp
  | some tree =>
      simp only [Option.bind_some, FileTree.node?_singleton]
      cases tree with
      | file content => simp
      | locked => simp
      | directory entries =>
          dsimp only
          rw [if_neg hname]
          cases hlookup : entries.lookup name with
          | none =>
              split <;> simp
          | some node =>
              have hshort := ((hroot.of_node? hhere).1.of_lookup hlookup).1.short
              simp [Nat.not_lt_of_le hshort, eq_comm]

/-- Names lead through directories to the end of all names, if there is anything. -/
theorem foldlM_step_eq_ok_iff (hroot : fs.root.WellFormed) (hhere : fs.root.node? here ≠ none)
    (hnames : ".." ∉ names) :
    names.foldlM fs.step here = .ok there ↔
      there = here ++ names ∧ fs.root.node? (here ++ names) ≠ none := by
  induction names generalizing here with
  | nil => simp [pure, Except.pure, hhere, eq_comm]
  | cons name names ih =>
      obtain ⟨hname, hmore⟩ := List.ne_and_not_mem_of_not_mem_cons hnames
      rw [List.append_cons, List.foldlM_cons]
      cases hstep : fs.step here name with
      | error reason =>
          have hnone : fs.root.node? (here ++ [name]) = none := by
            by_contra hsome
            rw [(step_eq_ok_iff hroot hname.symm).mpr ⟨rfl, hsome⟩] at hstep
            cases hstep
          rw [FileTree.node?_append, hnone]
          simp [bind, Except.bind]
      | ok next =>
          obtain ⟨rfl, hsome⟩ := (step_eq_ok_iff hroot hname.symm).mp hstep
          exact ih hsome hmore

/-! ## Absolute paths -/

/-- Only a directory is found at the end of a path that asks for one. -/
theorem follow_eq_ok_iff : fs.follow p = .ok (names, node) ↔
    p.names.foldlM fs.step (if p.isAbsolute then [] else fs.current) = .ok names ∧
      fs.root.node? names = some node ∧ (p.endsInDirectory = true → node.isRegular = false) := by
  unfold follow
  cases p.names.foldlM fs.step (if p.isAbsolute then [] else fs.current) with
  | error reason => simp [bind, Except.bind]
  | ok there =>
      simp only [bind, Except.bind, Except.ok.injEq]
      cases hnode : fs.root.node? there with
      | none =>
          simp only [reduceCtorEq, false_iff]
          rintro ⟨rfl, hsome, -⟩
          rw [hnode] at hsome
          cases hsome
      | some found =>
          have hfound : there = names ∧ fs.root.node? names = some node ↔
              there = names ∧ found = node := by
            constructor <;> rintro ⟨rfl, h⟩ <;> simpa [hnode] using h
          rw [← and_assoc, hfound, and_assoc]
          cases found <;> cases p.endsInDirectory <;>
            simp +contextual [FileTree.isRegular, eq_comm (b := node)]

theorem follow_absolute_iff (hroot : fs.root.WellFormed) (habsolute : p.isAbsolute = true)
    (hup : ".." ∉ p.names) (hend : p.endsInDirectory = false) :
    fs.follow p = .ok (names, node) ↔ names = p.names ∧ fs.root.node? p.names = some node := by
  have hstart : fs.root.node? [] ≠ none := by simp [FileTree.node?_nil]
  rw [follow_eq_ok_iff, if_pos habsolute, foldlM_step_eq_ok_iff hroot hstart hup, hend,
    List.nil_append]
  constructor
  · rintro ⟨⟨rfl, -⟩, hnode, -⟩
    exact ⟨rfl, hnode⟩
  · rintro ⟨rfl, hnode⟩
    exact ⟨⟨rfl, by simp [hnode]⟩, hnode, nofun⟩

theorem resolve_eq_ok_iff_follow : fs.resolve p = .ok (names, node) ↔
    '\x00' ∉ p.render.toList ∧ p.render.utf8ByteSize ≤ pathLimit ∧ p.render ≠ "" ∧
      fs.follow p = .ok (names, node) := by
  unfold resolve
  dsimp only
  split
  · next hnul => simp_all
  · next hnul =>
    split
    · next hlong => simp [Nat.not_le_of_lt hlong]
    · next hshort =>
      split
      · next hempty => simp [hempty]
      · next hempty => simp_all

theorem node?_of_resolve (h : fs.resolve p = .ok (names, node)) :
    fs.root.node? names = some node :=
  (follow_eq_ok_iff.mp (resolve_eq_ok_iff_follow.mp h).2.2.2).2.1

/-- An absolute path that never goes up and ends in a name leads to the node at the end of its
names, if it is not too long to be a path. -/
theorem resolve_eq_ok_iff (hroot : fs.root.WellFormed) (habsolute : p.isAbsolute = true)
    (hup : ".." ∉ p.names) (hend : p.endsInDirectory = false) :
    fs.resolve p = .ok (names, node) ↔
      p.render.utf8ByteSize ≤ pathLimit ∧ names = p.names ∧ fs.root.node? p.names = some node := by
  rw [resolve_eq_ok_iff_follow, follow_absolute_iff hroot habsolute hup hend]
  constructor
  · rintro ⟨-, hshort, -, hnode⟩
    exact ⟨hshort, hnode⟩
  · rintro ⟨hshort, rfl, hnode⟩
    refine ⟨?_, hshort, Path.render_ne_empty habsolute, rfl, hnode⟩
    intro hnul
    obtain ⟨name, hname, hmem⟩ := Path.mem_names_of_mem_render hnul (by decide) (by decide)
    exact ((hroot.of_node? hnode).2 name hname).noNul hmem

theorem isFile_eq_true_iff : fs.isFile p = true ↔
    ∃ names node, fs.resolve p = .ok (names, node) ∧ node.isRegular = true := by
  unfold isFile
  cases hresolve : fs.resolve p with
  | error reason => simp
  | ok found =>
      obtain ⟨names, node⟩ := found
      cases node <;> simp [FileTree.isRegular]

theorem isDirectory_of_isRegular (h : fs.resolve p = .ok (names, node))
    (hnode : node.isRegular = true) : fs.isDirectory p = false := by
  rw [isDirectory, h]
  cases node with
  | file content => rfl
  | locked => rfl
  | directory entries => cases hnode

/-- The root has entries, as the current directory is one of them or the root itself. -/
theorem WellFormed.ne_nil (h : fs.WellFormed) (hnode : fs.root.node? names = some node)
    (hregular : node.isRegular = true) : names ≠ [] := by
  rintro rfl
  obtain ⟨entries, hcurrent⟩ := h.current
  rw [FileTree.node?_nil, Option.some.injEq] at hnode
  rw [hnode] at hcurrent
  cases hnames : fs.current with
  | nil =>
      rw [hnames, FileTree.node?_nil, Option.some.injEq] at hcurrent
      rw [hcurrent] at hregular
      cases hregular
  | cons name more =>
      rw [hnames] at hcurrent
      cases node with
      | file content => cases hcurrent
      | locked => cases hcurrent
      | directory entries => cases hregular

/-- The absolute path to a node leads there, if it is not too long. -/
theorem resolve_ofNames (hroot : fs.root.WellFormed) (hnode : fs.root.node? names = some node)
    (hne : names ≠ []) (hshort : (Path.ofNames names).render.utf8ByteSize ≤ pathLimit) :
    fs.resolve (.ofNames names) = .ok (names, node) := by
  have hentries := (hroot.of_node? hnode).2
  have hnames : (Path.ofNames names).names = names :=
    Path.names_ofNames fun name hname => (hentries name hname).isName
  have hup : ".." ∉ (Path.ofNames names).names := by
    rw [hnames]
    exact fun hmem => (hentries _ hmem).notUp rfl
  have hend : (Path.ofNames names).endsInDirectory = false := by
    obtain ⟨front, last, rfl⟩ := List.eq_nil_or_concat' names |>.resolve_left hne
    rw [Path.pieces_ofNames hne, ← List.cons_append]
    exact Path.endsInDirectory_concat (hentries last List.mem_concat_self).isName
  rw [resolve_eq_ok_iff hroot (Path.isAbsolute_ofNames names) hup hend, hnames]
  exact ⟨hshort, rfl, hnode⟩

end FileSystem
end CssLex
