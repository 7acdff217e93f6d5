import Virtualization.AuthFs.FuseFs.Inode

/-!
# `unlink` and `rmdir` mark the parent

The table is meant to keep three facts together: every inode a directory names is in the table;
every other inode in it is named by a directory or still held by the kernel; and an inode is
`unlinked` exactly when no directory names it any more, so that `forget` removes it when the
kernel lets it go.

`unlink` and `rmdir` break the third.  Both run their closure on the state of `parent`, and the
closure sets `unlinked` on the state it is given: the directory the name is removed from is
marked, the entry that lost its name is not (`unlink_rmdir_mark_parent`), so a directory that
another one still names ends up marked.  From there the other two fail as well: the file that lost its name stays in the table after the kernel
forgets it, and a `forget` of the marked directory removes it while its parent still names it
(`unlink_breaks_table`).
-/

set_option linter.dupNamespace false

namespace Virtualization.AuthFs

open Outcome

namespace AuthFs

/-! ## The invariant of the table -/

/-- The inodes the directories in the table name. -/
def referencedInodes (s : AuthFs) : List Inode :=
  s.inodeTable.entries.flatMap fun e ↦ e.2.entry.dirInodes

/-- Every inode a directory names is in the table. -/
def EntriesInTable (s : AuthFs) : Prop :=
  ∀ i ∈ s.referencedInodes, i ∈ s.inodeTable

/-- Every inode in the table but the root is named by a directory or held by the kernel. -/
def KeysReferencedOrHeld (s : AuthFs) : Prop :=
  ∀ e ∈ s.inodeTable.entries, e.1 ≠ rootInode →
    e.1 ∈ s.referencedInodes ∨ 0 < e.2.handleRefCount

/-- An inode in the table but the root is `unlinked` exactly when no directory names it. -/
def UnlinkedIffUnreferenced (s : AuthFs) : Prop :=
  ∀ e ∈ s.inodeTable.entries, e.1 ≠ rootInode → (e.2.unlinked = true ↔ e.1 ∉ s.referencedInodes)

instance : DecidablePred EntriesInTable := fun s ↦
  inferInstanceAs (Decidable (∀ i ∈ s.referencedInodes, i ∈ s.inodeTable))

instance : DecidablePred KeysReferencedOrHeld := fun s ↦
  inferInstanceAs (Decidable (∀ e ∈ s.inodeTable.entries, e.1 ≠ rootInode →
    e.1 ∈ s.referencedInodes ∨ 0 < e.2.handleRefCount))

instance : DecidablePred UnlinkedIffUnreferenced := fun s ↦
  inferInstanceAs (Decidable (∀ e ∈ s.inodeTable.entries, e.1 ≠ rootInode →
    (e.2.unlinked = true ↔ e.1 ∉ s.referencedInodes)))

/-! ## What `unlink` and `rmdir` do -/

/-- Replacing `parent`'s state by a marked one marks `parent` and leaves every other inode. -/
theorem lookup_insert_marked (t : InodeTable) (parent : Inode) (entry : AuthFsEntry) (count : Nat) :
    ((t.insert parent ⟨entry, count, true⟩).lookup parent).map (·.unlinked) = some true ∧
      ∀ i ≠ parent, (t.insert parent ⟨entry, count, true⟩).lookup i = t.lookup i :=
  ⟨by rw [AList.lookup_insert]; rfl, fun _ hi ↦ AList.lookup_insert_ne hi⟩

/-- A successful `unlink` removes the name from the writable directory `parent` and marks
`parent`'s state `unlinked`. -/
theorem unlink_eq_ok {s s' : AuthFs} {parent : Inode} {name : String}
    (h : s.unlink parent name = ok (.ok (), s')) :
    ∃ st dir attr dir' child, s.inodeTable.lookup parent = some st ∧
      st.entry = .verifiedNewDirectory dir attr ∧ dir.deleteFile name = .ok (dir', child) ∧
      s'.inodeTable = s.inodeTable.insert parent
        ⟨.verifiedNewDirectory dir' attr, st.handleRefCount, true⟩ ∧
      s'.nextInode = s.nextInode ∧ s'.dirHandleTable = s.dirHandleTable ∧
      s'.nextHandle = s.nextHandle := by
  unfold unlink at h
  split at h
  · cases h
  rename_i st hst
  split at h
  · split at h
    · cases h
    · rename_i _ dir attr hentry _ dir' child hdel
      cases h
      exact ⟨st, dir, attr, dir', child, hst, hentry, hdel, rfl, rfl, rfl, rfl⟩
  all_goals cases h

/-- After a successful `unlink`, the directory the name was removed from is `unlinked`, and every
other inode, the one that lost its name among them, keeps its state. -/
theorem unlink_marks_parent {s s' : AuthFs} {parent : Inode} {name : String}
    (h : s.unlink parent name = ok (.ok (), s')) :
    (s'.inodeTable.lookup parent).map (·.unlinked) = some true ∧
      ∀ i ≠ parent, s'.inodeTable.lookup i = s.inodeTable.lookup i := by
  obtain ⟨st, dir, attr, dir', child, -, -, -, htable, -⟩ := unlink_eq_ok h
  rw [htable]
  exact lookup_insert_marked _ _ _ _

/-- A successful `rmdir` passed its check, removes the name from the writable directory `parent`
and marks `parent`'s state `unlinked`. -/
theorem rmdir_eq_ok {s s' : AuthFs} {parent : Inode} {name : String}
    (h : s.rmdir parent name = ok (.ok (), s')) :
    ∃ st dir attr dir' child, s.rmdirCheck parent name = .ok () ∧
      s.inodeTable.lookup parent = some st ∧ st.entry = .verifiedNewDirectory dir attr ∧
      dir.forceDeleteDirectory name = .ok (dir', child) ∧
      s'.inodeTable = s.inodeTable.insert parent
        ⟨.verifiedNewDirectory dir' attr, st.handleRefCount, true⟩ ∧
      s'.nextInode = s.nextInode ∧ s'.dirHandleTable = s.dirHandleTable ∧
      s'.nextHandle = s.nextHandle := by
  unfold rmdir at h
  split at h
  · cases h
  rename_i hcheck
  split at h
  · cases h
  rename_i st hst
  split at h
  · split at h
    · cases h
    · rename_i _ dir attr hentry _ dir' child hdel
      cases h
      exact ⟨st, dir, attr, dir', child, hcheck, hst, hentry, hdel, rfl, rfl, rfl, rfl⟩
  · cases h

/-- After a successful `rmdir`, the directory the name was removed from is `unlinked`, and every
other inode, the removed directory among them, keeps its state. -/
theorem rmdir_marks_parent {s s' : AuthFs} {parent : Inode} {name : String}
    (h : s.rmdir parent name = ok (.ok (), s')) :
    (s'.inodeTable.lookup parent).map (·.unlinked) = some true ∧
      ∀ i ≠ parent, s'.inodeTable.lookup i = s.inodeTable.lookup i := by
  obtain ⟨st, dir, attr, dir', child, -, -, -, -, htable, -⟩ := rmdir_eq_ok h
  rw [htable]
  exact lookup_insert_marked _ _ _ _

/-- A state marked in `s'` whose inode another directory of `s'` still names breaks the third
fact. -/
theorem not_unlinkedIffUnreferenced_of_marked {s' : AuthFs} {parent : Inode}
    (hroot : parent ≠ rootInode) (hmark : (s'.inodeTable.lookup parent).map (·.unlinked) = some true)
    (href : parent ∈ s'.referencedInodes) : ¬ UnlinkedIffUnreferenced s' := by
  obtain ⟨st, hst, hunlinked⟩ := Option.map_eq_some_iff.mp hmark
  intro hinv
  exact (hinv ⟨parent, st⟩ (AList.mem_lookup_iff.mp hst) hroot).mp hunlinked href

/-- An inode named by a directory whose state a step keeps stays named. -/
theorem mem_referencedInodes_of_lookup {s s' : AuthFs} {parent i : Inode} {st : InodeState}
    (hframe : s'.inodeTable.lookup i = s.inodeTable.lookup i) (hst : s.inodeTable.lookup i = some st)
    (hnamed : parent ∈ st.entry.dirInodes) : parent ∈ s'.referencedInodes :=
  List.mem_flatMap.mpr ⟨⟨i, st⟩, AList.mem_lookup_iff.mp (hframe.trans hst), hnamed⟩

/-- A successful `unlink` or `rmdir` marks the directory it removed the name from and keeps every
other inode's state; once that directory is not the root and another directory names it, the
table breaks the third fact. -/
theorem unlink_rmdir_mark_parent {s s' : AuthFs} {parent : Inode} {name : String}
    (h : s.unlink parent name = ok (.ok (), s') ∨ s.rmdir parent name = ok (.ok (), s')) :
    (s'.inodeTable.lookup parent).map (·.unlinked) = some true ∧
      (∀ i ≠ parent, s'.inodeTable.lookup i = s.inodeTable.lookup i) ∧
      (parent ≠ rootInode → (∃ e ∈ s.inodeTable.entries, e.1 ≠ parent ∧ parent ∈ e.2.entry.dirInodes) →
        ¬ UnlinkedIffUnreferenced s') := by
  obtain ⟨hmark, hframe⟩ := h.elim unlink_marks_parent rmdir_marks_parent
  refine ⟨hmark, hframe, fun hroot ⟨⟨i, st⟩, he, hi, hnamed⟩ ↦ ?_⟩
  exact not_unlinkedIffUnreferenced_of_marked hroot hmark
    (mem_referencedInodes_of_lookup (hframe i hi) (AList.mem_lookup_iff.mpr he) hnamed)

/-! ## A run that breaks all three -/

/-- A writable directory `d` at the root, with a file `f` created in it and unlinked: `d` is
marked and `f` is not.  After the kernel forgets `f`, it stays in the table with no name and no
reference; after it looks `d` up and forgets it, `d` is gone while the root still names it. -/
theorem unlink_breaks_table :
    ∃ s₁ s₂ s₃ s₄ s₅ s₆ stat₂ stat₅,
      addEntryAtRootDir new "d"
        (.verifiedNewDirectory (RemoteDirEditor.new 3) (Attr.newDirWithMode 3 0o700)) =
        ok (.ok 2, s₁) ∧
      create ⟨fun _ _ _ ↦ .ok 4, fun _ _ _ ↦ .ok 5, fun _ _ ↦ .ok ()⟩ s₁ 2 "f" 0o644 0o022 =
        ok (.ok (3, stat₂), s₂) ∧
      s₂.unlink 2 "f" = ok (.ok (), s₃) ∧
      s₃.forget 3 1 = ok s₄ ∧
      s₄.lookup rootInode "d" = ok (.ok (2, stat₅), s₅) ∧
      s₅.forget 2 1 = ok s₆ ∧
      ¬ UnlinkedIffUnreferenced s₃ ∧ ¬ KeysReferencedOrHeld s₄ ∧ ¬ EntriesInTable s₆ := by
  refine ⟨_, _, _, _, _, _, _, _, rfl, rfl, (fun h₃ ↦ ⟨h₃, by exact rfl, by exact rfl, by exact rfl,
    (unlink_rmdir_mark_parent (.inl h₃)).2.2 (by decide) (by decide), by decide, by decide⟩) rfl⟩

end AuthFs

end Virtualization.AuthFs
