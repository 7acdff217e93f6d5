import Virtualization.AuthFs.FuseFs.Inode

/-!
# Building the tree: `add_entry_at_ro_dir_by_path` below a file

`add_entry_at_ro_dir_by_path` walks the parent path of the new entry from a read-only directory,
taking each component's entry when the directory has one and creating a read-only directory when
it has not.  It takes an existing entry whatever it is, and then assumes, with
`unreachable!("Not a ReadonlyDirectory")`, that it is a read-only directory: at the next step of
the walk, or when the entry is inserted into the last directory of the walk.

So a path that continues below a name whose entry is a file does not fail with an error: it
panics (`addEntryAtRoDirByPath_below_file`).  The tree reaches that state from `AuthFs::new` by
adding a file `a` and then an entry at `a/b` (`addEntryAtRoDirByPath_file_then_below`), which is
what a manifest or a list of options that names both does.
-/

set_option linter.dupNamespace false

namespace Virtualization.AuthFs

open Outcome

/-- `Path::parent` of a relative path of names: the path without its last name. -/
theorem pathParent_normal {names : List String} (hne : names ≠ []) :
    pathParent (names.map .normal) = some (names.map .normal).dropLast := by
  rw [pathParent, List.getLast?_map, List.getLast?_eq_some_getLast hne]
  rfl

namespace AuthFs

variable {s : AuthFs}

/-! ## One step of the walk -/

/-- At a read-only directory that has the name, the walk moves to its entry, whatever it is. -/
theorem walkStep_existing {dirInode inode : Inode} {st : InodeState} {dir : InMemoryDir}
    {name : String} (hdir : s.inodeTable.lookup dirInode = some st)
    (hro : st.entry = .readonlyDirectory dir) (hname : dir.lookupInode name = some inode) :
    walkStep s dirInode (.normal name) = ok (.ok inode, s) := by
  rw [walkStep, hdir]
  dsimp only
  rw [hro]
  dsimp only
  rw [hname]

/-- At an inode whose entry is not a read-only directory, the walk reaches `unreachable!`. -/
theorem walkStep_of_not_readonly {dirInode : Inode} {st : InodeState} {name : String}
    (hdir : s.inodeTable.lookup dirInode = some st)
    (hnot : ∀ dir, st.entry ≠ .readonlyDirectory dir) :
    walkStep s dirInode (.normal name) = panic := by
  rw [walkStep, hdir]
  dsimp only
  cases hentry : st.entry with
  | readonlyDirectory dir => exact absurd hentry (hnot dir)
  | verifiedReadonly _ => rfl
  | unverifiedReadonly _ => rfl
  | verifiedNew _ _ => rfl
  | verifiedNewDirectory _ _ => rfl

/-! ## Below a file -/

/-- A walk that goes on from an inode whose entry is not a read-only directory panics. -/
theorem walkParent_of_not_readonly {inode : Inode} {st : InodeState}
    (hinode : s.inodeTable.lookup inode = some st)
    (hnot : ∀ dir, st.entry ≠ .readonlyDirectory dir) (name : String) (names : List String) :
    walkParent ((name :: names).map .normal) s inode = panic := by
  rw [List.map_cons, walkParent, walkStep_of_not_readonly hinode hnot, panic_bind]

/-- A path that continues below a name whose entry is not a read-only directory panics: the walk
panics at the next name, or, when the name is the last of the parent path, the insertion does.
-/
theorem addEntryAtRoDirByPath_below_file {dirInode file : Inode} {st stFile : InodeState}
    {dir : InMemoryDir} {name : String} (hdir : s.inodeTable.lookup dirInode = some st)
    (hro : st.entry = .readonlyDirectory dir) (hname : dir.lookupInode name = some file)
    (hfile : s.inodeTable.lookup file = some stFile)
    (hnot : ∀ dir, stFile.entry ≠ .readonlyDirectory dir) (below : String) (rest : List String)
    (entry : AuthFsEntry) :
    addEntryAtRoDirByPath s dirInode ((name :: below :: rest).map .normal) entry = panic := by
  have hparent : ((name :: below :: rest).map Component.normal).dropLast =
      .normal name :: ((below :: rest).dropLast).map .normal := by
    rw [List.map_cons, List.dropLast_cons_of_ne_nil (by simp), List.map_dropLast]
  rw [addEntryAtRoDirByPath, pathParent_normal (List.cons_ne_nil _ _), hparent]
  dsimp only
  rw [walkParent, walkStep_existing hdir hro hname, ok_bind]
  dsimp only
  cases hnames : (below :: rest).dropLast with
  | nil =>
    rw [List.map_nil, walkParent, ok_bind]
    dsimp only
    rw [hfile]
    dsimp only
    cases hentry : stFile.entry with
    | readonlyDirectory dir => exact absurd hentry (hnot dir)
    | verifiedReadonly _ => rfl
    | unverifiedReadonly _ => rfl
    | verifiedNew _ _ => rfl
    | verifiedNewDirectory _ _ => rfl
  | cons next names =>
    rw [walkParent_of_not_readonly hfile hnot next names, panic_bind]

/-- From `AuthFs::new`, a file `a` at the root, then an entry at `a/b`. -/
theorem addEntryAtRoDirByPath_file_then_below :
    ∃ s₁ st dir stFile, addEntryAtRootDir new "a" (.unverifiedReadonly 0) = ok (.ok 2, s₁) ∧
      s₁.inodeTable.lookup rootInode = some st ∧ st.entry = .readonlyDirectory dir ∧
      dir.lookupInode "a" = some 2 ∧ s₁.inodeTable.lookup 2 = some stFile ∧
      (∀ dir, stFile.entry ≠ .readonlyDirectory dir) ∧
      addEntryAtRoDirByPath s₁ rootInode (["a", "b"].map .normal) (.unverifiedReadonly 0) = panic :=
  ⟨_, _, _, _, rfl, rfl, rfl, rfl, rfl, fun _ h ↦ AuthFsEntry.noConfusion h,
    addEntryAtRoDirByPath_below_file rfl rfl rfl rfl (fun _ h ↦ AuthFsEntry.noConfusion h) "b" []
      (.unverifiedReadonly 0)⟩

end AuthFs

end Virtualization.AuthFs
