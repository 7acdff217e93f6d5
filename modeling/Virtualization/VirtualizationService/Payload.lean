import Virtualization.Lib.Io
import Virtualization.Lib.Sorted

/-!
# `virtualizationservice::payload`: the partitions of the payload disk

`make_payload_disk` builds the disk that carries a VM's payload: its metadata, the APEXes, the
main APK and its idsig, then each extra APK of the payload config with the idsig the app config
gives for it, labelled by its place in the config, `extra-apk-{i}` and `extra-idsig-{i}`.  The
guest finds the partitions by these labels.

The model starts from the partition list.  The metadata file is given, and so are the APEX paths,
in the order `make_payload_disk` sorts them to; reading the package manager's APEX list and
writing the metadata file are left out.  Opening a file and cloning a descriptor are functions
that may fail, as they do in the source.

`labels_makePayloadDisk` lists the labels of every disk `make_payload_disk` returns.
-/

namespace Virtualization.VirtualizationService

open Outcome

variable {α : Type}

/-- `Partition`, with the image descriptor of type `α`. -/
structure Partition (α : Type) where
  label : String
  image : Option α
  writable : Bool

/-- `DiskImage`. -/
structure DiskImage (α : Type) where
  image : Option α
  partitions : List (Partition α)
  writable : Bool

/-- `ApkConfig` of the payload config. -/
structure ApkConfig where
  path : String

/-- `VmPayloadConfig`, the payload config the host and the guest read: its extra APKs. -/
structure VmPayloadConfig where
  extraApks : List ApkConfig

/-- `VirtualMachineAppConfig`: the idsigs of the extra APKs, as descriptors. -/
structure VirtualMachineAppConfig (α : Type) where
  extraIdsigs : List α

/-- The errors of `make_payload_disk`. -/
inductive PayloadError where
  /-- "payload config has {} apks, but app config has {} idsigs" -/
  | extraApksMismatch (apks idsigs : Nat)
  /-- An `io::Error` of opening an image or cloning a descriptor. -/
  | io (e : IoError)
deriving DecidableEq, Repr

/-- An `io::Result` under `?` in `make_payload_disk`. -/
def io {β : Type} (r : Except IoError β) : Outcome PayloadError β :=
  ofExcept (r.mapError .io)

/-- The partition of the `i`-th APEX, opened by `open_parcel_file`. -/
def apexPartition (openFile : String → Except IoError α) (apex : String × Nat) :
    Outcome PayloadError (Partition α) := do
  let apexFile ← io (openFile apex.1)
  pure ⟨"microdroid-apex-" ++ toString apex.2, some apexFile, false⟩

/-- The two partitions of the `i`-th extra APK: the APK opened from its path, and its idsig. -/
def extraPartitions (openFile : String → Except IoError α) (tryClone : α → Except IoError α)
    (extra : (ApkConfig × α) × Nat) : Outcome PayloadError (List (Partition α)) := do
  let ((extraApk, extraIdsig), i) := extra
  let apk ← io (openFile extraApk.path)
  let idsig ← io (tryClone extraIdsig)
  pure [⟨"extra-apk-" ++ toString i, some apk, false⟩,
    ⟨"extra-idsig-" ++ toString i, some idsig, false⟩]

/-- `make_payload_disk`, from the sorted APEX paths and the metadata file on. -/
def makePayloadDisk (openFile : String → Except IoError α) (tryClone : α → Except IoError α)
    (appConfig : VirtualMachineAppConfig α) (apkFile idsigFile : α)
    (vmPayloadConfig : VmPayloadConfig) (apexPaths : List String) (metadataFile : α) :
    Outcome PayloadError (DiskImage α) :=
  if vmPayloadConfig.extraApks.length ≠ appConfig.extraIdsigs.length then
    err (.extraApksMismatch vmPayloadConfig.extraApks.length appConfig.extraIdsigs.length)
  else do
    let apexes ← apexPaths.zipIdx.mapM (apexPartition openFile)
    -- the extra APKs and their idsigs, in the order of the payload config
    let extras ← (vmPayloadConfig.extraApks.zip appConfig.extraIdsigs).zipIdx.mapM
      (extraPartitions openFile tryClone)
    pure ⟨none, ⟨"payload-metadata", some metadataFile, false⟩ :: apexes ++
      [⟨"microdroid-apk", some apkFile, false⟩, ⟨"microdroid-apk-idsig", some idsigFile, false⟩] ++
      extras.flatten, false⟩

/-! ## The labels of the payload disk -/

/-- The labels of the extra partitions: `extra-apk-{i}`, then `extra-idsig-{i}`, for each `i`. -/
def extraLabels (n : Nat) : List String :=
  (List.range n).flatMap fun i ↦ ["extra-apk-" ++ toString i, "extra-idsig-" ++ toString i]

theorem map_snd_zipIdx {β : Type} (l : List β) : l.zipIdx.map Prod.snd = List.range l.length := by
  rw [← List.unzip_snd, List.unzip_zipIdx_eq_prod, List.range_eq_range']

theorem labels_apexPartition {openFile : String → Except IoError α} {apex : String × Nat}
    {p : Partition α} (h : apexPartition openFile apex = ok p) :
    p.label = "microdroid-apex-" ++ toString apex.2 := by
  obtain ⟨apexFile, -, h⟩ := bind_eq_ok.mp h
  cases h
  rfl

theorem labels_extraPartitions {openFile : String → Except IoError α}
    {tryClone : α → Except IoError α} {extra : (ApkConfig × α) × Nat} {ps : List (Partition α)}
    (h : extraPartitions openFile tryClone extra = ok ps) :
    ps.map (·.label) = ["extra-apk-" ++ toString extra.2, "extra-idsig-" ++ toString extra.2] := by
  obtain ⟨apk, -, h⟩ := bind_eq_ok.mp h
  obtain ⟨idsig, -, h⟩ := bind_eq_ok.mp h
  cases h
  rfl

/-- The labels of a payload disk: the metadata, the APEXes by index, the main APK and its
idsig, and the extra APKs and idsigs by their index in the payload config. -/
theorem labels_makePayloadDisk {openFile : String → Except IoError α}
    {tryClone : α → Except IoError α} {appConfig : VirtualMachineAppConfig α} {apkFile idsigFile : α}
    {vmPayloadConfig : VmPayloadConfig} {apexPaths : List String} {metadataFile : α}
    {disk : DiskImage α}
    (h : makePayloadDisk openFile tryClone appConfig apkFile idsigFile vmPayloadConfig apexPaths
      metadataFile = ok disk) :
    disk.partitions.map (·.label) = "payload-metadata" ::
      indexedNames "microdroid-apex-" apexPaths.length ++
      ["microdroid-apk", "microdroid-apk-idsig"] ++ extraLabels vmPayloadConfig.extraApks.length := by
  unfold makePayloadDisk at h
  split_ifs at h with hlen
  obtain ⟨apexes, hapexes, h⟩ := bind_eq_ok.mp h
  obtain ⟨extras, hextras, h⟩ := bind_eq_ok.mp h
  cases h
  have hapexLabels : apexes.map (·.label) = indexedNames "microdroid-apex-" apexPaths.length := by
    rw [map_of_mapM_eq_ok (fun _ _ ↦ labels_apexPartition) hapexes, indexedNames, numerals,
      ← map_snd_zipIdx, List.map_map, List.map_map]
    rfl
  have hextraLabels : (extras.map fun ps ↦ ps.map (·.label)) =
      (List.range vmPayloadConfig.extraApks.length).map
        fun i ↦ ["extra-apk-" ++ toString i, "extra-idsig-" ++ toString i] := by
    have hzip : (vmPayloadConfig.extraApks.zip appConfig.extraIdsigs).length =
        vmPayloadConfig.extraApks.length := by
      rw [List.length_zip, not_not.mp hlen, Nat.min_self]
    rw [map_of_mapM_eq_ok (fun _ _ ↦ labels_extraPartitions) hextras, ← hzip, ← map_snd_zipIdx,
      List.map_map]
    rfl
  simp only [List.map_cons, List.map_append, List.map_flatten, hapexLabels, hextraLabels,
    extraLabels, List.flatMap_def]
  rfl

end Virtualization.VirtualizationService
