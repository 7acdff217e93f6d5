import Virtualization.Lib.Outcome
import Mathlib.Data.List.AList

/-!
# `zipfuse::inode`: the inode table of a zip archive

`InodeTable::from_zip` turns the entries of a zip archive into a tree of inodes.  The table is a
vector indexed by inode number; inode 0 is `INVALID` and inode 1 the root, both directories.  For
each entry, the components of its path are walked from the root: a component already in its
directory is followed, and a missing one is created, as a file for the last component of a file
entry and as a directory otherwise.

`find` and `add` expect their parent to be a directory: `get_directory().unwrap()` and
`add_to_directory` panic on a file.  An archive whose entry goes below a file, as a file `a`
followed by an entry `a/b`, therefore makes `from_zip` panic (`fromZip_file_then_below`).

A zip entry is given by what `from_zip` reads of it: its name, the components of
`enclosed_name()` (none when the name is refused), whether it is a file, its unix mode and its
size.  A name is a `String`: `enclosed_name` refuses names with a NUL byte, so the `CString::new`
of a component never fails.
-/

namespace Virtualization.ZipFuse

open Outcome

/-- `Inode`. -/
abbrev Inode := Nat

/-- `INVALID`. -/
def invalid : Inode := 0

/-- `ROOT`. -/
def root : Inode := 1

/-- `InodeKind`. -/
inductive InodeKind where
  | directory
  | file
deriving DecidableEq, Repr

/-- `DirectoryEntry`. -/
structure DirectoryEntry where
  inode : Inode
  kind : InodeKind
deriving DecidableEq, Repr

/-- `InodeDataData`: a directory's entries by name, or a file's index in the archive. -/
inductive InodeDataData where
  | directory (entries : AList fun _ : String ↦ DirectoryEntry)
  | file (zipIndex : Nat)

/-- `InodeData`. -/
structure InodeData where
  size : Nat
  mode : Nat
  data : InodeDataData

/-- What `from_zip` reads of a zip entry. -/
structure ZipEntry where
  name : String
  enclosedName : Option (List String)
  isFile : Bool
  unixMode : Option Nat
  size : Nat

/-- The `anyhow::Error`s of `from_zip`. -/
inductive ZipError where
  /-- "{} is an invalid name" -/
  | invalidName (name : String)
  /-- ".. is not allowed" -/
  | dotDot
deriving DecidableEq, Repr

namespace InodeData

/-- `InodeData::is_dir`. -/
def isDir (d : InodeData) : Bool :=
  match d.data with
  | .directory _ => true
  | .file _ => false

/-- `InodeData::get_directory`. -/
def getDirectory (d : InodeData) : Option (AList fun _ : String ↦ DirectoryEntry) :=
  match d.data with
  | .directory entries => some entries
  | .file _ => none

/-- `InodeData::get_zip_index`. -/
def getZipIndex (d : InodeData) : Option Nat :=
  match d.data with
  | .directory _ => none
  | .file zipIndex => some zipIndex

/-- `InodeData::new_dir`. -/
def newDir (mode : Nat) : InodeData := ⟨0, mode, .directory ∅⟩

/-- `InodeData::new_file`. -/
def newFile (zipIndex : Nat) (zipFile : ZipEntry) : InodeData :=
  ⟨zipFile.size, zipFile.unixMode.getD 0, .file zipIndex⟩

/-- `InodeData::add_to_directory`: a new name in a directory; a name already there fails the
`assert!`, and a file panics. -/
def addToDirectory (d : InodeData) (name : String) (entry : DirectoryEntry) :
    Outcome Empty InodeData :=
  match d.data with
  | .directory entries =>
    if name ∈ entries then panic else ok { d with data := .directory (entries.insert name entry) }
  | .file _ => panic

end InodeData

/-- `InodeTable`. -/
structure InodeTable where
  table : List InodeData

namespace InodeTable

/-- `InodeTable::get`. -/
def get (t : InodeTable) (inode : Inode) : Option InodeData :=
  if inode = invalid then none else t.table[inode]?

/-- `get_mut` followed by a change `f` of the inode, which must exist. -/
def modify (t : InodeTable) (inode : Inode) (f : InodeData → Outcome Empty InodeData) :
    Outcome Empty InodeTable :=
  match t.get inode with
  | none => panic
  | some d => do
    let d ← f d
    pure ⟨t.table.set inode d⟩

/-- `InodeTable::put`: the new inode is the old length of the table. -/
def put (t : InodeTable) (data : InodeData) : Inode × InodeTable :=
  (t.table.length, ⟨t.table ++ [data]⟩)

/-- `InodeTable::find`: the parent must exist and be a directory. -/
def find (t : InodeTable) (parent : Inode) (name : String) : Outcome Empty (Option Inode) := do
  let data ← expect (t.get parent)
  let entries ← expect data.getDirectory
  pure ((entries.lookup name).map (·.inode))

/-- `InodeTable::add`: a new inode linked into `parent` as `name`. -/
def add (t : InodeTable) (parent : Inode) (name : String) (data : InodeData) :
    Outcome Empty (Inode × InodeTable) := do
  assert ((← t.find parent name) = none)
  let kind := if data.isDir then InodeKind.directory else InodeKind.file
  let (inode, t) := t.put data
  let t ← t.modify parent fun d ↦ d.addToDirectory name ⟨inode, kind⟩
  pure (inode, t)

/-- `DEFAULT_DIR_MODE`: `S_IRUSR | S_IXUSR`. -/
def defaultDirMode : Nat := 0o500

/-- The walk of `from_zip` down the components of the `i`-th entry's path, from `parent`. -/
def walk (i : Nat) (file : ZipEntry) : List String → Inode → InodeTable →
    Outcome ZipError InodeTable
  | [], _, t => ok t
  | name :: rest, parent, t =>
    if name = ".." then err .dotDot
    else
      let isLeaf := rest.isEmpty
      let isFile := file.isFile && isLeaf
      match (t.find parent name).mapErr Empty.elim with
      | .panic => panic
      | .err e => err e
      | .ok (some found) => do
        -- a directory leaf takes the entry's mode
        let t ← if !isFile && isLeaf then
            (t.modify found fun d ↦ ok { d with mode := file.unixMode.getD 0 }).mapErr Empty.elim
          else pure t
        walk i file rest found t
      | .ok none => do
        let inode := if isFile then InodeData.newFile i file
          else if isLeaf then InodeData.newDir (file.unixMode.getD defaultDirMode)
          else InodeData.newDir defaultDirMode
        let (new, t) ← (t.add parent name inode).mapErr Empty.elim
        walk i file rest new t

/-- `InodeTable::from_zip`: the table of an archive's entries, in their order.  The entries are
what `archive.by_index(i)` returns for each index; its error path, an entry the `zip` crate
cannot read, is left out. -/
def fromZip (entries : List ZipEntry) : Outcome ZipError InodeTable :=
  let t : InodeTable := ⟨[InodeData.newDir 0, InodeData.newDir 0]⟩
  entries.zipIdx.foldlM (fun t (file, i) ↦
    match file.enclosedName with
    | none => err (.invalidName file.name)
    | some path => walk i file path root t) t

/-! ## A file with an entry below it -/

/-- `find` in a file panics. -/
theorem find_of_file {t : InodeTable} {parent : Inode} {d : InodeData} (hget : t.get parent = some d)
    (hfile : d.getDirectory = none) (name : String) : t.find parent name = panic := by
  rw [find, hget, expect_some, ok_bind, hfile, expect_none, panic_bind]

/-- A path that goes on below a component naming a file panics in the walk, whatever the table
and the entry. -/
theorem walk_below_file {i : Nat} {file : ZipEntry} {t : InodeTable} {parent found : Inode}
    {name next : String} {rest : List String} (hname : name ≠ "..") (hnext : next ≠ "..")
    (hfound : t.find parent name = ok (some found)) {d : InodeData} (hget : t.get found = some d)
    (hfile : d.getDirectory = none) : walk i file (name :: next :: rest) parent t = panic := by
  have hleaf : (next :: rest).isEmpty = false := rfl
  rw [walk, if_neg hname]
  dsimp only
  rw [hfound, mapErr_ok, hleaf, Bool.and_false]
  dsimp only
  rw [if_neg Bool.false_ne_true, pure_eq, ok_bind, walk, if_neg hnext]
  dsimp only
  rw [find_of_file hget hfile, mapErr_panic]

/-- A file `a`, then an entry `a/b`: the walk of `a/b` finds `a` and asks the file for its
directory. -/
theorem fromZip_file_then_below :
    fromZip [⟨"a", some ["a"], true, none, 1⟩, ⟨"a/b", some ["a", "b"], true, none, 1⟩] =
      panic := by
  obtain ⟨t, hfirst, hfound, hget⟩ : ∃ t, walk 0 ⟨"a", some ["a"], true, none, 1⟩ ["a"] root
      ⟨[InodeData.newDir 0, InodeData.newDir 0]⟩ = ok t ∧ t.find root "a" = ok (some 2) ∧
      t.get 2 = some (InodeData.newFile 0 ⟨"a", some ["a"], true, none, 1⟩) :=
    ⟨_, rfl, rfl, rfl⟩
  have hsecond : walk 1 ⟨"a/b", some ["a", "b"], true, none, 1⟩ ["a", "b"] root t = panic :=
    walk_below_file (by decide) (by decide) hfound hget rfl
  show (walk 0 _ ["a"] root _ >>= fun t ↦ walk 1 _ ["a", "b"] root t >>= fun t ↦ pure t) = panic
  rw [hfirst, ok_bind, hsecond, panic_bind]

end InodeTable

end Virtualization.ZipFuse
