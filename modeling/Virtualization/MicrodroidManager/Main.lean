import Virtualization.VirtualizationService.Payload

/-!
# `microdroid_manager`: finding and mounting the extra APKs

The guest cannot read the payload config before it has verified the APKs, so `verify_payload`
finds the extra APKs by globbing `/dev/block/by-name` for `extra-apk-*` and `extra-idsig-*`,
sorts each list of paths, and numbers the dm-verity devices it asks `apkdmverity` for by their
place in the sorted list: the `i`-th device is named `extra-apk-{i}`.  `mount_extra_apks` then
mounts the device `/dev/block/mapper/extra-apk-{i}` at `/mnt/extra-apk/{i}` for each extra APK of
the payload config.

The host labelled the partitions by their place in the payload config (`labels_makePayloadDisk`),
and paths sort as strings, so the guest's numbering is the host's only while the numerals sort as
numbers: for at most ten extra APKs every mount point shows the partition of its own index, and
from eleven on `extra-apk-10` is sorted before `extra-apk-2` and mounted at `/mnt/extra-apk/2`
(`extraApks_paired_and_matched_iff`, `extraApks_eleven`).  The APK and the idsig of one device
always come from partitions of the same index, whatever their number.

Paths are strings.  Rust orders `PathBuf`s by components, which for names in one directory is the
order of the names, and orders names by bytes, which for UTF-8 is the order of the characters; the
paths here share their directory, so their order is the order of the strings.  `glob`'s own order
is left open: the paths are sorted after it.
-/

namespace Virtualization.MicrodroidManager

open Outcome VirtualizationService

variable {ρ : Type}

/-- A glob pattern `dir/stem*`: the files of `dir` whose names begin with `stem`. -/
structure GlobPattern where
  dir : String
  stem : String

/-- Whether the pattern's `*` matches the rest of the file name `name`. -/
def GlobPattern.matches (pattern : GlobPattern) (name : String) : Bool :=
  decide (pattern.stem.toList <+: name.toList)

/-- `EXTRA_APK_PATH_PATTERN`: `/dev/block/by-name/extra-apk-*`. -/
def extraApkPathPattern : GlobPattern := ⟨"/dev/block/by-name/", "extra-apk-"⟩

/-- `EXTRA_IDSIG_PATH_PATTERN`: `/dev/block/by-name/extra-idsig-*`. -/
def extraIdsigPathPattern : GlobPattern := ⟨"/dev/block/by-name/", "extra-idsig-"⟩

/-- `glob(pattern)` in a directory that holds the files `names`, in the directory's order. -/
def glob (pattern : GlobPattern) (names : List String) : List String :=
  (names.filter pattern.matches).map (pattern.dir ++ ·)

/-- `ApkDmverityArgument`: `apkdmverity` builds the device `name` from `apk` and `idsig`. -/
structure ApkDmverityArgument (ρ : Type) where
  apk : String
  idsig : String
  name : String
  savedRootHash : Option ρ

/-- The files and the name of an argument: what the device is built from, and what it is called. -/
def ApkDmverityArgument.device (a : ApkDmverityArgument ρ) : String × String × String :=
  (a.apk, a.idsig, a.name)

/-- The error of the extra APKs' part of `verify_payload`. -/
inductive VerifyError where
  /-- "Extra apks/idsigs mismatch: {} apks but {} idsigs" -/
  | extraApksMismatch (apks idsigs : Nat)
deriving DecidableEq, Repr

/-- The argument for the `i`-th extra APK: the saved root hash is passed on when it is the one
the idsig gives, `saved_extra_root_hashes.get(i).copied() == Some(root_hash_from_idsig)`. -/
def extraApkDmverityArgument [DecidableEq ρ] (savedExtraRootHashes : List ρ)
    (extra : (String × String × String × ρ) × Nat) : ApkDmverityArgument ρ :=
  let ((apk, idsig, name, rootHashFromIdsig), i) := extra
  ⟨apk, idsig, name,
    if savedExtraRootHashes[i]? = some rootHashFromIdsig then some rootHashFromIdsig else none⟩

/-- The extra APKs' part of `verify_payload`, from the files of `/dev/block/by-name`: the
arguments it adds for `apkdmverity`. -/
def extraApkDmverityArguments [DecidableEq ρ] (getApkRootHashFromIdsig : String → Except IoError ρ)
    (savedExtraRootHashes : List ρ) (byName : List String) :
    Outcome VerifyError (List (ApkDmverityArgument ρ)) :=
  let extraApks := sorted (glob extraApkPathPattern byName)
  let extraIdsigs := sorted (glob extraIdsigPathPattern byName)
  if extraApks.length ≠ extraIdsigs.length then
    err (.extraApksMismatch extraApks.length extraIdsigs.length)
  else do
    -- `.expect("Can't find root hash from extra idsig")`
    let extraRootHashesFromIdsig ← extraIdsigs.mapM fun extraIdsig ↦
      expect (getApkRootHashFromIdsig extraIdsig).toOption
    let extraApkNames := indexedNames "extra-apk-" extraIdsigs.length
    pure ((extraApks.zip (extraIdsigs.zip (extraApkNames.zip extraRootHashesFromIdsig))).zipIdx.map
      (extraApkDmverityArgument savedExtraRootHashes))

/-- `MAPPER_DEV_ROOT` of `apkdmverity` on Android. -/
def mapperDevRoot : String := "/dev/block/mapper"

/-- The path of the device `DeviceMapper::create_device` makes for the name `name`. -/
def devicePath (name : String) : String := mapperDevRoot ++ "/" ++ name

/-- A `zipfuse` process started by `run_zipfuse`. -/
structure ZipfuseMount where
  option : String
  zipPath : String
  mountDir : String
deriving DecidableEq

/-- The errors of `mount_extra_apks`. -/
inductive MountError where
  /-- "Failed to create mount dir for extra apks" -/
  | createMountDir (e : IoError)
  /-- "Failed to zipfuse extra apks" -/
  | zipfuse (e : IoError)
deriving DecidableEq, Repr

/-- The mount of the `i`-th extra APK. -/
def extraApkMount (i : Nat) : ZipfuseMount :=
  ⟨"fscontext=u:object_r:zipfusefs:s0,context=u:object_r:extra_apk_file:s0",
    "/dev/block/mapper/extra-apk-" ++ toString i, "/mnt/extra-apk/" ++ toString i⟩

/-- `mount_extra_apks`: the `zipfuse` processes it starts, one per extra APK of the payload
config, each after creating its mount point. -/
def mountExtraApks (createDir : String → Except IoError Unit)
    (runZipfuse : ZipfuseMount → Except IoError Unit) (config : VmPayloadConfig) :
    Outcome MountError (List ZipfuseMount) :=
  (List.range config.extraApks.length).mapM fun i ↦ do
    let mount := extraApkMount i
    ofExcept ((createDir mount.mountDir).mapError .createMountDir)
    ofExcept ((runZipfuse mount).mapError .zipfuse)
    pure mount

/-! ## What the guest computes -/

section Guest

variable [DecidableEq ρ] {getApkRootHashFromIdsig : String → Except IoError ρ}
  {savedExtraRootHashes : List ρ} {byName : List String} {args : List (ApkDmverityArgument ρ)}

/-- The `i`-th argument builds the device `extra-apk-{i}` from the `i`-th APK and the `i`-th
idsig in sorted order; there are as many of each. -/
theorem extraApkDmverityArguments_eq_ok
    (h : extraApkDmverityArguments getApkRootHashFromIdsig savedExtraRootHashes byName = ok args) :
    (sorted (glob extraApkPathPattern byName)).length =
        (sorted (glob extraIdsigPathPattern byName)).length ∧
      args.map (·.device) = (sorted (glob extraApkPathPattern byName)).zip
        ((sorted (glob extraIdsigPathPattern byName)).zip
          (indexedNames "extra-apk-" (sorted (glob extraIdsigPathPattern byName)).length)) := by
  unfold extraApkDmverityArguments at h
  dsimp only at h
  split_ifs at h with hcount
  obtain ⟨hashes, hhashes, h⟩ := bind_eq_ok.mp h
  cases h
  have hcount' := not_not.mp hcount
  have hhashLen : hashes.length = (sorted (glob extraIdsigPathPattern byName)).length := by
    simpa using congrArg List.length (map_of_mapM_eq_ok (g := fun _ ↦ ()) (h := fun _ ↦ ())
      (fun _ _ _ ↦ rfl) hhashes)
  refine ⟨hcount', List.ext_getElem (by simp [hcount', hhashLen]) fun i _ _ ↦ ?_⟩
  simp [ApkDmverityArgument.device, extraApkDmverityArgument]

end Guest

/-- The mounts are those of the extra APKs of the config, in order. -/
theorem mountExtraApks_eq_ok {createDir : String → Except IoError Unit}
    {runZipfuse : ZipfuseMount → Except IoError Unit} {config : VmPayloadConfig}
    {mounts : List ZipfuseMount} (h : mountExtraApks createDir runZipfuse config = ok mounts) :
    mounts = (List.range config.extraApks.length).map extraApkMount := by
  have hmap := map_of_mapM_eq_ok (g := id) (h := extraApkMount) (fun i m hm ↦ ?_) h
  · rwa [List.map_id] at hmap
  obtain ⟨_, -, hm⟩ := bind_eq_ok.mp hm
  obtain ⟨_, -, hm⟩ := bind_eq_ok.mp hm
  cases hm
  rfl

/-! ## The host's partitions in the guest -/

/-- `/dev/block/by-name/{label}`: where the guest finds the partition labelled `label`. -/
def byNamePath (label : String) : String := "/dev/block/by-name/" ++ label

/-- `/dev/block/by-name` holds a file per label of the payload disk, and the partitions of other
disks, which neither extra pattern matches. -/
def HoldsLabels (byName labels : List String) : Prop :=
  ∃ others, byName.Perm (labels ++ others) ∧ ∀ name ∈ others,
    extraApkPathPattern.matches name = false ∧ extraIdsigPathPattern.matches name = false

/-- What the host and the guest must agree on: the APK mounted at `/mnt/extra-apk/{i}` is read
through a dm-verity device built from the partitions the host labelled `extra-apk-{i}` and
`extra-idsig-{i}`. -/
def MountsMatchLabels (args : List (ApkDmverityArgument ρ)) (mounts : List ZipfuseMount) : Prop :=
  ∀ m ∈ mounts, ∃ i : Nat, m.mountDir = "/mnt/extra-apk/" ++ toString i ∧
    ∃ a ∈ args, devicePath a.name = m.zipPath ∧ a.apk = byNamePath ("extra-apk-" ++ toString i) ∧
      a.idsig = byNamePath ("extra-idsig-" ++ toString i)

theorem matches_stem_append (pattern : GlobPattern) (s : String) :
    pattern.matches (pattern.stem ++ s) = true := by
  rw [GlobPattern.matches, decide_eq_true_iff, String.toList_append]
  exact List.prefix_append _ _

theorem matches_append_eq_false {pattern : GlobPattern} {q : String}
    (hpq : ¬ pattern.stem.toList <+: q.toList) (hqp : ¬ q.toList <+: pattern.stem.toList)
    (s : String) : pattern.matches (q ++ s) = false := by
  rw [GlobPattern.matches, decide_eq_false_iff_not]
  exact not_prefix_append hpq hqp s

/-- A pattern that matches no fixed label of the payload disk and no APEX picks its labels from
the extra ones. -/
theorem filter_payloadLabels {pattern : GlobPattern}
    (hfixed : ∀ l ∈ ["payload-metadata", "microdroid-apk", "microdroid-apk-idsig"],
      pattern.matches l = false)
    (hapex : ∀ s, pattern.matches ("microdroid-apex-" ++ s) = false) (m n : Nat) :
    ("payload-metadata" :: indexedNames "microdroid-apex-" m ++
      ["microdroid-apk", "microdroid-apk-idsig"] ++ extraLabels n).filter pattern.matches =
      (extraLabels n).filter pattern.matches := by
  have hapexes : (indexedNames "microdroid-apex-" m).filter pattern.matches = [] := by
    rw [List.filter_eq_nil_iff]
    intro name hname
    obtain ⟨i, -, rfl⟩ := mem_indexedNames.mp hname
    simp [hapex]
  simp only [List.cons_append, List.filter_cons, List.filter_append, hapexes, List.filter_nil]
  simp [hfixed]

theorem filter_extraLabels_apk (n : Nat) :
    (extraLabels n).filter extraApkPathPattern.matches = indexedNames "extra-apk-" n := by
  have hidsig : ∀ s, extraApkPathPattern.matches ("extra-idsig-" ++ s) = false :=
    matches_append_eq_false (by decide) (by decide)
  have hown : ∀ s, extraApkPathPattern.matches ("extra-apk-" ++ s) = true :=
    matches_stem_append extraApkPathPattern
  simp only [extraLabels, List.filter_flatMap, List.filter_cons, List.filter_nil, hidsig, hown,
    Bool.false_eq_true, ↓reduceIte]
  rw [← List.map_eq_flatMap, indexedNames, numerals, List.map_map]
  rfl

theorem filter_extraLabels_idsig (n : Nat) :
    (extraLabels n).filter extraIdsigPathPattern.matches = indexedNames "extra-idsig-" n := by
  have hapk : ∀ s, extraIdsigPathPattern.matches ("extra-apk-" ++ s) = false :=
    matches_append_eq_false (by decide) (by decide)
  have hown : ∀ s, extraIdsigPathPattern.matches ("extra-idsig-" ++ s) = true :=
    matches_stem_append extraIdsigPathPattern
  simp only [extraLabels, List.filter_flatMap, List.filter_cons, List.filter_nil, hapk, hown,
    Bool.false_eq_true, ↓reduceIte]
  rw [← List.map_eq_flatMap, indexedNames, numerals, List.map_map]
  rfl

/-- Globbing a directory that holds `labels` and names the pattern does not match, then sorting,
gives the labels the pattern picks, in the order of their numerals. -/
theorem sorted_glob {pattern : GlobPattern} {byName labels others : List String}
    (hperm : byName.Perm (labels ++ others)) (hothers : ∀ name ∈ others, pattern.matches name = false)
    {p : String} {n : Nat} (hlabels : labels.filter pattern.matches = indexedNames p n) :
    sorted (glob pattern byName) = (sorted (numerals n)).map fun s ↦ pattern.dir ++ (p ++ s) := by
  have hothers' : others.filter pattern.matches = [] := by
    rw [List.filter_eq_nil_iff]
    intro name hname
    simp [hothers name hname]
  have hglob : (glob pattern byName).Perm ((indexedNames p n).map (pattern.dir ++ ·)) := by
    have := (hperm.filter pattern.matches).map (pattern.dir ++ ·)
    rwa [List.filter_append, hlabels, hothers', List.append_nil] at this
  rw [sorted_eq_of_perm hglob, indexedNames, List.map_map,
    sorted_map ((strictMono_append pattern.dir).comp (strictMono_append p))]
  rfl

/-! ## The host and the guest together -/

section Agreement

variable {α : Type} {openFile : String → Except IoError α} {tryClone : α → Except IoError α}
  {appConfig : VirtualMachineAppConfig α} {apkFile idsigFile metadataFile : α}
  {vmPayloadConfig : VmPayloadConfig} {apexPaths : List String} {disk : DiskImage α}
  {byName : List String}

/-- The extra APK paths the guest sorts are the host's extra APK partitions, by numeral. -/
theorem sorted_glob_extraApk
    (hdisk : makePayloadDisk openFile tryClone appConfig apkFile idsigFile vmPayloadConfig
      apexPaths metadataFile = ok disk)
    (hby : HoldsLabels byName (disk.partitions.map (·.label))) :
    sorted (glob extraApkPathPattern byName) =
      (sorted (numerals vmPayloadConfig.extraApks.length)).map
        fun s ↦ byNamePath ("extra-apk-" ++ s) := by
  obtain ⟨others, hperm, hothers⟩ := hby
  refine sorted_glob hperm (fun name h ↦ (hothers name h).1) ?_
  rw [labels_makePayloadDisk hdisk, filter_payloadLabels (by decide)
    (matches_append_eq_false (by decide) (by decide)), filter_extraLabels_apk]

/-- The extra idsig paths the guest sorts are the host's extra idsig partitions, by numeral. -/
theorem sorted_glob_extraIdsig
    (hdisk : makePayloadDisk openFile tryClone appConfig apkFile idsigFile vmPayloadConfig
      apexPaths metadataFile = ok disk)
    (hby : HoldsLabels byName (disk.partitions.map (·.label))) :
    sorted (glob extraIdsigPathPattern byName) =
      (sorted (numerals vmPayloadConfig.extraApks.length)).map
        fun s ↦ byNamePath ("extra-idsig-" ++ s) := by
  obtain ⟨others, hperm, hothers⟩ := hby
  refine sorted_glob hperm (fun name h ↦ (hothers name h).2) ?_
  rw [labels_makePayloadDisk hdisk, filter_payloadLabels (by decide)
    (matches_append_eq_false (by decide) (by decide)), filter_extraLabels_idsig]

/-- The device the guest asks for in place `i`, from the partitions of numeral `s`. -/
def extraDevice (entry : String × Nat) : String × String × String :=
  (byNamePath ("extra-apk-" ++ entry.1), byNamePath ("extra-idsig-" ++ entry.1),
    "extra-apk-" ++ toString entry.2)

theorem devicePath_extraApk (i : Nat) :
    devicePath ("extra-apk-" ++ toString i) = (extraApkMount i).zipPath := by
  have hroot : mapperDevRoot ++ "/" ++ "extra-apk-" = "/dev/block/mapper/extra-apk-" := by decide
  rw [devicePath, ← String.append_assoc, hroot]
  rfl

variable [DecidableEq ρ] {getApkRootHashFromIdsig : String → Except IoError ρ}
  {savedExtraRootHashes : List ρ} {args : List (ApkDmverityArgument ρ)}

/-- The guest's devices for a payload disk: the `i`-th is built from the partitions of the
`i`-th numeral in string order. -/
theorem devices_of_payloadDisk
    (hdisk : makePayloadDisk openFile tryClone appConfig apkFile idsigFile vmPayloadConfig
      apexPaths metadataFile = ok disk)
    (hby : HoldsLabels byName (disk.partitions.map (·.label)))
    (hargs : extraApkDmverityArguments getApkRootHashFromIdsig savedExtraRootHashes byName =
      ok args) :
    args.map (·.device) =
      (sorted (numerals vmPayloadConfig.extraApks.length)).zipIdx.map extraDevice := by
  obtain ⟨-, hdevices⟩ := extraApkDmverityArguments_eq_ok hargs
  rw [hdevices, sorted_glob_extraApk hdisk hby, sorted_glob_extraIdsig hdisk hby]
  apply List.ext_getElem
  · simp
  · intro i _ _
    simp [extraDevice]

end Agreement

/-- If every mount point shows the partition of its own index, the guest's order of the numerals
is the host's. -/
theorem sorted_numerals_of_mountsMatchLabels {n : Nat} {args : List (ApkDmverityArgument ρ)}
    (hdevices : args.map (·.device) = (sorted (numerals n)).zipIdx.map extraDevice)
    (hmatch : MountsMatchLabels args ((List.range n).map extraApkMount)) :
    sorted (numerals n) = numerals n := by
  apply List.ext_getElem?
  intro i
  by_cases hi : i < n
  · obtain ⟨i', hdir, a, ha, hpath, hapk, -⟩ :=
      hmatch (extraApkMount i) (List.mem_map_of_mem (List.mem_range.mpr hi))
    have hi' : i' = i := toString_injective (append_left_cancel hdir).symm
    have hmem : a.device ∈ (sorted (numerals n)).zipIdx.map extraDevice :=
      hdevices ▸ List.mem_map_of_mem ha
    obtain ⟨⟨s, j⟩, hsj, hdev⟩ := List.mem_map.mp hmem
    simp only [extraDevice, ApkDmverityArgument.device, Prod.mk.injEq] at hdev
    obtain ⟨hs, -, hname⟩ := hdev
    have hj : j = i := by
      rw [← hname, devicePath_extraApk] at hpath
      exact toString_injective (append_left_cancel hpath)
    have hsi : s = toString i := by
      rw [← hs, hi'] at hapk
      exact append_left_cancel (append_left_cancel hapk)
    rw [List.mk_mem_zipIdx_iff_getElem?, hj] at hsj
    rw [hsj, hsi]
    simp [numerals, hi]
  · have hlen : n ≤ i := Nat.le_of_not_lt hi
    simp [hlen]

/-- Whatever the number of extra APKs, each device is built from the APK and the idsig of one
index of the payload config. -/
theorem extraApkDmverityArguments_paired {α : Type} {openFile : String → Except IoError α}
    {tryClone : α → Except IoError α} {appConfig : VirtualMachineAppConfig α}
    {apkFile idsigFile metadataFile : α} {vmPayloadConfig : VmPayloadConfig}
    {apexPaths : List String} {disk : DiskImage α} {byName : List String} [DecidableEq ρ]
    {getApkRootHashFromIdsig : String → Except IoError ρ} {savedExtraRootHashes : List ρ}
    {args : List (ApkDmverityArgument ρ)}
    (hdisk : makePayloadDisk openFile tryClone appConfig apkFile idsigFile vmPayloadConfig
      apexPaths metadataFile = ok disk)
    (hby : HoldsLabels byName (disk.partitions.map (·.label)))
    (hargs : extraApkDmverityArguments getApkRootHashFromIdsig savedExtraRootHashes byName =
      ok args) :
    ∀ a ∈ args, ∃ k < vmPayloadConfig.extraApks.length,
      a.apk = byNamePath ("extra-apk-" ++ toString k) ∧
        a.idsig = byNamePath ("extra-idsig-" ++ toString k) := by
  intro a ha
  have hmem : a.device ∈
      (sorted (numerals vmPayloadConfig.extraApks.length)).zipIdx.map extraDevice :=
    devices_of_payloadDisk hdisk hby hargs ▸ List.mem_map_of_mem ha
  obtain ⟨⟨s, i⟩, hsi, hdev⟩ := List.mem_map.mp hmem
  have hs : s ∈ numerals vmPayloadConfig.extraApks.length :=
    (sorted_perm _).mem_iff.mp (List.fst_mem_of_mem_zipIdx hsi)
  obtain ⟨k, hk, rfl⟩ := List.mem_map.mp hs
  simp only [extraDevice, ApkDmverityArgument.device, Prod.mk.injEq] at hdev
  exact ⟨k, List.mem_range.mp hk, hdev.1.symm, hdev.2.1.symm⟩

/-- For a payload disk, every extra APK is mounted at the mount point of its own index exactly
when there are at most ten of them. -/
theorem mountsMatchLabels_iff {α : Type} {openFile : String → Except IoError α}
    {tryClone : α → Except IoError α} {appConfig : VirtualMachineAppConfig α}
    {apkFile idsigFile metadataFile : α} {vmPayloadConfig : VmPayloadConfig}
    {apexPaths : List String} {disk : DiskImage α} {byName : List String} [DecidableEq ρ]
    {getApkRootHashFromIdsig : String → Except IoError ρ} {savedExtraRootHashes : List ρ}
    {args : List (ApkDmverityArgument ρ)} {createDir : String → Except IoError Unit}
    {runZipfuse : ZipfuseMount → Except IoError Unit} {mounts : List ZipfuseMount}
    (hdisk : makePayloadDisk openFile tryClone appConfig apkFile idsigFile vmPayloadConfig
      apexPaths metadataFile = ok disk)
    (hby : HoldsLabels byName (disk.partitions.map (·.label)))
    (hargs : extraApkDmverityArguments getApkRootHashFromIdsig savedExtraRootHashes byName =
      ok args)
    (hmounts : mountExtraApks createDir runZipfuse vmPayloadConfig = ok mounts) :
    MountsMatchLabels args mounts ↔ vmPayloadConfig.extraApks.length ≤ 10 := by
  have hdevices := devices_of_payloadDisk hdisk hby hargs
  rw [mountExtraApks_eq_ok hmounts]
  constructor
  · intro hmatch
    by_contra hn
    exact sorted_numerals_ne (by omega) (sorted_numerals_of_mountsMatchLabels hdevices hmatch)
  · intro hn
    rw [sorted_numerals_of_le hn] at hdevices
    intro m hm
    obtain ⟨i, hi, rfl⟩ := List.mem_map.mp hm
    refine ⟨i, rfl, ?_⟩
    have hmem : extraDevice (toString i, i) ∈ args.map (·.device) := by
      rw [hdevices]
      apply List.mem_map_of_mem
      rw [List.mk_mem_zipIdx_iff_getElem?]
      simp [numerals, List.mem_range.mp hi]
    obtain ⟨a, ha, hdev⟩ := List.mem_map.mp hmem
    simp only [extraDevice, ApkDmverityArgument.device, Prod.mk.injEq] at hdev
    obtain ⟨hapk, hidsig, hname⟩ := hdev
    exact ⟨a, ha, by rw [hname, devicePath_extraApk], hapk, hidsig⟩

/-- Whatever the number of extra APKs, each device pairs the APK and the idsig of one index of the
payload config; and every mount point shows the partitions of its own index exactly when there are
at most ten. -/
theorem extraApks_paired_and_matched_iff {α : Type} {openFile : String → Except IoError α}
    {tryClone : α → Except IoError α} {appConfig : VirtualMachineAppConfig α}
    {apkFile idsigFile metadataFile : α} {vmPayloadConfig : VmPayloadConfig}
    {apexPaths : List String} {disk : DiskImage α} {byName : List String} [DecidableEq ρ]
    {getApkRootHashFromIdsig : String → Except IoError ρ} {savedExtraRootHashes : List ρ}
    {args : List (ApkDmverityArgument ρ)} {createDir : String → Except IoError Unit}
    {runZipfuse : ZipfuseMount → Except IoError Unit} {mounts : List ZipfuseMount}
    (hdisk : makePayloadDisk openFile tryClone appConfig apkFile idsigFile vmPayloadConfig
      apexPaths metadataFile = ok disk)
    (hby : HoldsLabels byName (disk.partitions.map (·.label)))
    (hargs : extraApkDmverityArguments getApkRootHashFromIdsig savedExtraRootHashes byName =
      ok args)
    (hmounts : mountExtraApks createDir runZipfuse vmPayloadConfig = ok mounts) :
    (∀ a ∈ args, ∃ k < vmPayloadConfig.extraApks.length,
      a.apk = byNamePath ("extra-apk-" ++ toString k) ∧
        a.idsig = byNamePath ("extra-idsig-" ++ toString k)) ∧
      (MountsMatchLabels args mounts ↔ vmPayloadConfig.extraApks.length ≤ 10) :=
  ⟨extraApkDmverityArguments_paired hdisk hby hargs, mountsMatchLabels_iff hdisk hby hargs hmounts⟩

/-- Eleven extra APKs: the guest builds the device `extra-apk-2`, which `mount_extra_apks` mounts
at `/mnt/extra-apk/2`, from the partitions the host labelled `extra-apk-10` and
`extra-idsig-10`. -/
theorem extraApks_eleven :
    ∃ disk args mounts,
      makePayloadDisk (fun _ ↦ .ok 0) .ok ⟨List.replicate 11 0⟩ 0 0
        ⟨List.replicate 11 ⟨"extra.apk"⟩⟩ [] 0 = ok disk ∧
      extraApkDmverityArguments (fun _ ↦ (.ok 0 : Except IoError Nat)) []
        (disk.partitions.map (·.label)) = ok args ∧
      mountExtraApks (fun _ ↦ .ok ()) (fun _ ↦ .ok ()) ⟨List.replicate 11 ⟨"extra.apk"⟩⟩ =
        ok mounts ∧
      extraApkMount 2 ∈ mounts ∧ (extraApkMount 2).zipPath = devicePath "extra-apk-2" ∧
      args[2]?.map (·.device) = some ("/dev/block/by-name/extra-apk-10",
        "/dev/block/by-name/extra-idsig-10", "extra-apk-2") ∧
      ¬ MountsMatchLabels args mounts := by
  have hmismatch : ∀ {disk args mounts}, makePayloadDisk (fun _ ↦ .ok 0) .ok ⟨List.replicate 11 0⟩
        0 0 ⟨List.replicate 11 ⟨"extra.apk"⟩⟩ [] 0 = ok disk →
      extraApkDmverityArguments (fun _ ↦ (.ok 0 : Except IoError Nat)) []
        (disk.partitions.map (·.label)) = ok args →
      mountExtraApks (fun _ ↦ .ok ()) (fun _ ↦ .ok ()) ⟨List.replicate 11 ⟨"extra.apk"⟩⟩ =
        ok mounts →
      ¬ MountsMatchLabels args mounts := fun hdisk hargs hmounts hmatch ↦
    absurd ((extraApks_paired_and_matched_iff hdisk ⟨[], by rw [List.append_nil], nofun⟩ hargs
      hmounts).2.mp hmatch) (by decide)
  exact ⟨_, _, _, rfl, rfl, rfl, by decide, by decide, rfl, hmismatch rfl rfl rfl⟩

end Virtualization.MicrodroidManager
