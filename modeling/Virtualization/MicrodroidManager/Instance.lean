import Virtualization.Lib.BlockDevice
import Virtualization.Lib.Bytes
import Mathlib.Logic.Relation

/-!
# `microdroid_manager::instance`: the identity data on the instance disk

The instance disk is a block device holding a 512-byte disk header and a chain of partitions.
Each partition is a 512-byte header, whose first sixteen bytes are a UUID and next eight the
payload size, followed by the payload and padding to the next multiple of 512.  The chain ends at
a header with the nil UUID, an empty slot.

`write_microdroid_data` walks the chain to the partition with the microdroid manager's UUID, or
to the first empty slot, where it writes a header.  It then writes a random nonce after the
header, and after the nonce the identity data encoded in CBOR and sealed with AES-256-GCM, whose
additional data is the whole 512-byte header as it reads it back.  `read_microdroid_data` walks
the chain the same way and opens what it finds.

AES-256-GCM is an `Aead`: `seal_in_place_append_tag` appends a tag of `tag_len` bytes, and
`open_in_place` undoes it under the same key, nonce and additional data.  CBOR is a `Codec` whose
decoding undoes its encoding.  The key `get_key` derives from the DICE sealing CDI is given, and
so is the nonce `rand::random` draws; `blkflsbuf` is a call on the device that may fail.
`u64` and `usize` arithmetic panics on overflow.

The walk ends because every step moves past a header it read (`locateFrom`).  Its step over a
foreign partition is `nextHeaderOffset`; the partitions it steps over are `Precedes`.
-/

namespace Virtualization.MicrodroidManager

open Outcome

/-- `uuid::Uuid`: sixteen bytes. -/
structure Uuid where
  bytes : FixedBytes 16
deriving DecidableEq

/-- `Uuid::nil()`. -/
def Uuid.nil : Uuid := ⟨FixedBytes.zero 16⟩

/-- `MICRODROID_PARTITION_UUID`, `cf9afe9a-0662-11ec-a329-c32663a09d75`, as `Uuid::parse_str`
reads it. -/
def microdroidPartitionUuid : Uuid :=
  ⟨⟨[0xcf, 0x9a, 0xfe, 0x9a, 0x06, 0x62, 0x11, 0xec, 0xa3, 0x29, 0xc3, 0x26, 0x63, 0xa0, 0x9d, 0x75],
    rfl⟩⟩

/-- `DISK_HEADER_MAGIC`, "Android-VM-instance". -/
def diskHeaderMagic : List UInt8 := "Android-VM-instance".toUTF8.toList

/-- `DISK_HEADER_VERSION`. -/
def diskHeaderVersion : Nat := 1

/-- `DISK_HEADER_SIZE`. -/
def diskHeaderSize : Nat := 512

/-- `PARTITION_HEADER_SIZE`. -/
def partitionHeaderSize : Nat := 512

/-- `PartitionHeader`. -/
structure PartitionHeader where
  uuid : Uuid
  payloadSize : Nat

/-- `ApkData`. -/
structure ApkData where
  rootHash : List UInt8
  pubkey : List UInt8
deriving DecidableEq

/-- `ApexData`. -/
structure ApexData where
  name : String
  publicKey : List UInt8
  rootDigest : List UInt8
  lastUpdateSeconds : Nat
  isFactory : Bool
deriving DecidableEq

/-- `MicrodroidData`. -/
structure MicrodroidData where
  salt : List UInt8
  apkData : ApkData
  extraApksData : List ApkData
  apexData : List ApexData
deriving DecidableEq

/-- The AEAD of `ring` with keys of type `K`: `seal_in_place_append_tag` appends a tag of
`tagLen` bytes to the ciphertext, which stays a `Vec<u8>`, and `open_in_place` opens what it
sealed under the same key, nonce and additional data.  `none` is the `Unspecified` error. -/
structure Aead (K : Type) where
  tagLen : Nat
  sealInPlaceAppendTag : K → FixedBytes 12 → List UInt8 → List UInt8 → Option (List UInt8)
  openInPlace : K → FixedBytes 12 → List UInt8 → List UInt8 → Option (List UInt8)
  length_seal : ∀ {key nonce aad data sealed},
    sealInPlaceAppendTag key nonce aad data = some sealed → sealed.length = data.length + tagLen
  length_seal_le : ∀ {key nonce aad data sealed},
    sealInPlaceAppendTag key nonce aad data = some sealed → sealed.length ≤ isizeMax
  open_seal : ∀ {key nonce aad data sealed},
    sealInPlaceAppendTag key nonce aad data = some sealed → openInPlace key nonce aad sealed = some data

/-- `serde_cbor` on values of type `δ`: `to_vec` and `from_slice`, the second undoing the
first.  `none` is a `serde_cbor::Error`. -/
structure Codec (δ : Type) where
  toVec : δ → Option (List UInt8)
  fromSlice : List UInt8 → Option δ
  fromSlice_toVec : ∀ {d bytes}, toVec d = some bytes → fromSlice bytes = some d

/-- The `anyhow::Error`s of the instance disk. -/
inductive InstanceError where
  /-- An `io::Error` of the device. -/
  | io (e : IoError)
  /-- "invalid magic: {:?}" -/
  | invalidMagic (magic : List UInt8)
  /-- "invalid version: {}" -/
  | invalidVersion (version : Nat)
  /-- "unsupported version: {}" -/
  | unsupportedVersion (version : Nat)
  /-- "Can't change payload size from {} to {}" -/
  | payloadSizeChange (old new : Nat)
  /-- "overflow" -/
  | overflow
  /-- "partition too large" -/
  | partitionTooLarge
  /-- "next partition at invalid offset" -/
  | invalidNextOffset
  /-- The `Unspecified` error of sealing or opening. -/
  | crypto
  /-- A `serde_cbor::Error`. -/
  | cbor
  /-- An error of `get_key`, from the DICE service. -/
  | key
deriving DecidableEq

/-- An `io::Result` under `?`. -/
def io {α : Type} (r : Except IoError α) : Outcome InstanceError α := ofExcept (r.mapError .io)

@[simp] theorem io_ok {α : Type} (a : α) : io (.ok a) = ok a := rfl

theorem io_eq_ok {α : Type} {r : Except IoError α} {a : α} : io r = ok a ↔ r = .ok a := by
  cases r <;> simp [io, Except.mapError]

/-- A change of the device under `?`. -/
def ioStep {α : Type} (x : Stateful (List UInt8) IoError α) : Stateful (List UInt8) InstanceError α :=
  Stateful.mapError .io x

/-- `InstanceDisk::new`, once the device is open: the magic and the version of the disk header. -/
def checkDiskHeader (file : List UInt8) : Outcome InstanceError Unit := do
  let magic ← io (readExactAt file 0 diskHeaderMagic.length)
  if magic ≠ diskHeaderMagic then err (.invalidMagic magic)
  else
    let version := ofLeBytes (← io (readExactAt file diskHeaderMagic.length 2))
    if version = 0 then err (.invalidVersion version)
    else if version > diskHeaderVersion then err (.unsupportedVersion version)
    else pure ()

/-- `round_to_multiple`: `n` rounded up to a multiple of the power of two `unit`. -/
def roundToMultiple (n unit : Nat) : Outcome InstanceError Nat := do
  let mask ← checkedSub unit 1
  assert (unit &&& mask = 0)
  -- `(n + unit - 1) & !(unit - 1)`
  let ret := (← checkedSub (← checkedAdd 64 n unit) 1) &&& bitNot 64 mask
  if ret < n then err .overflow else pure ret

/-- `read_header_at`: the UUID and the little-endian payload size at an aligned offset. -/
def readHeaderAt (file : List UInt8) (headerOffset : Nat) : Outcome InstanceError PartitionHeader := do
  assert (headerOffset % partitionHeaderSize = 0)
  let uuid ← io (readExactAt file headerOffset 16)
  let payloadSize ← io (readExactAt file (headerOffset + 16) 8)
  pure ⟨⟨(FixedBytes.zero 16).setPrefix uuid⟩, ofLeBytes payloadSize⟩

/-- `write_header_at`. -/
def writeHeaderAt (headerOffset : Nat) (uuid : Uuid) (payloadSize : Nat) :
    Stateful (List UInt8) IoError Unit := do
  writeAllAt headerOffset uuid.bytes.toList
  writeAllAt (headerOffset + 16) (leBytes 8 payloadSize)

/-- The step of `locate_microdroid_header` over a partition of another loader: the offset of the
next header. -/
def nextHeaderOffset (headerOffset payloadSize : Nat) : Outcome InstanceError Nat := do
  let payloadSize ← roundToMultiple payloadSize partitionHeaderSize
  let partSize ← checkedAddOr 64 payloadSize partitionHeaderSize .partitionTooLarge
  checkedAddOr 64 headerOffset partSize .invalidNextOffset

/-- A header is read only inside the device. -/
theorem lt_length_of_readHeaderAt {file : List UInt8} {headerOffset : Nat} {header : PartitionHeader}
    (h : readHeaderAt file headerOffset = ok header) : headerOffset < file.length := by
  unfold readHeaderAt at h
  obtain ⟨_, -, h⟩ := bind_eq_ok.mp h
  obtain ⟨uuid, huuid, -⟩ := bind_eq_ok.mp h
  obtain ⟨hlen, -⟩ := readExactAt_eq_ok.mp (io_eq_ok.mp huuid)
  omega

/-- The bytes of `DISK_HEADER_MAGIC`. -/
theorem diskHeaderMagic_eq : diskHeaderMagic =
    [0x41, 0x6e, 0x64, 0x72, 0x6f, 0x69, 0x64, 0x2d, 0x56, 0x4d, 0x2d, 0x69, 0x6e, 0x73, 0x74, 0x61,
      0x6e, 0x63, 0x65] := by
  rw [diskHeaderMagic, byteArray_toList, String.toUTF8_eq_toByteArray, ← String.utf8Encode_toList]
  simp [List.utf8Encode, String.utf8EncodeChar]

theorem length_diskHeaderMagic : diskHeaderMagic.length = 19 := by
  rw [diskHeaderMagic_eq]
  rfl

/-- A disk header that `InstanceDisk::new` accepts: the magic, the version, and zeros. -/
def validDiskHeader : List UInt8 :=
  diskHeaderMagic ++ leBytes 2 diskHeaderVersion ++ List.replicate 491 0

theorem length_validDiskHeader : validDiskHeader.length = diskHeaderSize := by
  simp only [validDiskHeader, List.length_append, length_diskHeaderMagic, length_leBytes,
    List.length_replicate, diskHeaderSize]

theorem checkDiskHeader_validDiskHeader (rest : List UInt8) :
    checkDiskHeader (validDiskHeader ++ rest) = ok () := by
  have hlen : (validDiskHeader ++ rest).length = 512 + rest.length := by
    rw [List.length_append, length_validDiskHeader]
    rfl
  have hmagic : bytesAt (validDiskHeader ++ rest) 0 diskHeaderMagic.length = diskHeaderMagic := by
    simp only [bytesAt, List.drop_zero, validDiskHeader, List.append_assoc, List.take_left']
  have hversion : bytesAt (validDiskHeader ++ rest) diskHeaderMagic.length 2 = leBytes 2 1 := by
    simp only [bytesAt, validDiskHeader, List.append_assoc, List.drop_left']
    exact List.take_left' (length_leBytes 2 1)
  unfold checkDiskHeader
  rw [readExactAt_of_le (by rw [length_diskHeaderMagic]; omega), io_ok, ok_bind, hmagic,
    if_neg (not_not.mpr rfl),
    readExactAt_of_le (by rw [length_diskHeaderMagic]; omega), io_ok, ok_bind, hversion]
  rfl

/-- The 512 bytes of a partition header as `write_header_at` leaves them on a zeroed block. -/
def headerBytes (uuid : Uuid) (payloadSize : Nat) : List UInt8 :=
  uuid.bytes.toList ++ leBytes 8 payloadSize ++ List.replicate 488 0

theorem length_headerBytes (uuid : Uuid) (payloadSize : Nat) :
    (headerBytes uuid payloadSize).length = partitionHeaderSize := by
  simp only [headerBytes, List.length_append, uuid.bytes.length_toList, length_leBytes,
    List.length_replicate, partitionHeaderSize]

/-- A header is read back from its bytes. -/
theorem readHeaderAt_headerBytes (pre rest : List UInt8) (uuid : Uuid) (payloadSize : Nat)
    (hal : pre.length % partitionHeaderSize = 0) (hs : payloadSize < 2 ^ 64) :
    readHeaderAt (pre ++ headerBytes uuid payloadSize ++ rest) pre.length = ok ⟨uuid, payloadSize⟩ := by
  have hu : uuid.bytes.toList.length = 16 := uuid.bytes.length_toList
  have hlen : (pre ++ headerBytes uuid payloadSize ++ rest).length =
      pre.length + 512 + rest.length := by
    rw [List.length_append, List.length_append, length_headerBytes]
    rfl
  have huuid : bytesAt (pre ++ headerBytes uuid payloadSize ++ rest) pre.length 16 =
      uuid.bytes.toList := by
    simp only [bytesAt, headerBytes, List.append_assoc, List.drop_left']
    exact List.take_left' hu
  have hsize : bytesAt (pre ++ headerBytes uuid payloadSize ++ rest) (pre.length + 16) 8 =
      leBytes 8 payloadSize := by
    simp only [bytesAt, headerBytes, List.append_assoc, ← List.drop_drop, List.drop_left']
    rw [List.drop_left' hu]
    exact List.take_left' (length_leBytes 8 payloadSize)
  have hvalue : ofLeBytes (leBytes 8 payloadSize) = payloadSize := by
    rw [ofLeBytes_leBytes, Nat.mod_eq_of_lt (by simpa using hs)]
  unfold readHeaderAt
  rw [assert_of_true hal, ok_bind, readExactAt_of_le (by omega), io_ok, ok_bind,
    readExactAt_of_le (by omega), io_ok, ok_bind, huuid, hsize, hvalue, pure_eq,
    FixedBytes.ext_iff.mpr (FixedBytes.toList_setPrefix_of_length _ hu)]

/-! ## The walk along the chain of headers -/

/-- `round_to_multiple` by a power of two rounds up, unless `n + unit` overflows first. -/
theorem roundToMultiple_of_lt {n k : Nat} (hk : k < 64) (h : n + 2 ^ k < 2 ^ 64) :
    roundToMultiple n (2 ^ k) = ok ((n + 2 ^ k - 1) / 2 ^ k * 2 ^ k) := by
  have hpos : 0 < 2 ^ k := Nat.two_pow_pos k
  have hpow : 2 ^ k &&& (2 ^ k - 1) = 0 := by rw [Nat.and_two_pow_sub_one_eq_mod, Nat.mod_self]
  have hround : (n + 2 ^ k - 1) &&& bitNot 64 (2 ^ k - 1) = (n + 2 ^ k - 1) / 2 ^ k * 2 ^ k :=
    and_bitNot_two_pow_sub_one (by omega) (Nat.le_of_lt hk)
  have hge : n ≤ (n + 2 ^ k - 1) / 2 ^ k * 2 ^ k := by
    have := Nat.lt_div_mul_add (a := n + 2 ^ k - 1) hpos
    omega
  simp only [roundToMultiple, checkedSub_of_le (Nat.one_le_two_pow), ok_bind, assert_of_true hpow,
    checkedAdd_of_lt h, checkedSub_of_le (by omega : 1 ≤ n + 2 ^ k), hround, if_neg (Nat.not_lt.mpr hge),
    pure_eq]

/-- `n + unit - 1` is computed before the check, and panics when `n + unit` overflows. -/
theorem roundToMultiple_of_le {n k : Nat} (h : 2 ^ 64 ≤ n + 2 ^ k) :
    roundToMultiple n (2 ^ k) = .panic := by
  have hpow : 2 ^ k &&& (2 ^ k - 1) = 0 := by rw [Nat.and_two_pow_sub_one_eq_mod, Nat.mod_self]
  simp only [roundToMultiple, checkedSub_of_le (Nat.one_le_two_pow), ok_bind, assert_of_true hpow,
    checkedAdd_of_le h, panic_bind]

theorem partitionHeaderSize_eq : partitionHeaderSize = 2 ^ 9 := rfl

theorem roundToMultiple_partitionHeaderSize {n : Nat} (h : n + 512 < 2 ^ 64) :
    roundToMultiple n partitionHeaderSize = ok ((n + 511) / 512 * 512) := by
  rw [partitionHeaderSize_eq, roundToMultiple_of_lt (by decide) (by simp only [Nat.reducePow]; omega)]
  simp only [Nat.reducePow]
  rw [Nat.add_sub_assoc (by decide : 1 ≤ 512)]

theorem roundToMultiple_partitionHeaderSize_of_le {n : Nat} (h : 2 ^ 64 ≤ n + 512) :
    roundToMultiple n partitionHeaderSize = .panic := by
  rw [partitionHeaderSize_eq]
  exact roundToMultiple_of_le (by simp only [Nat.reducePow] at h ⊢; omega)

/-- The step over a partition of another loader: past its header and its payload rounded up to
whole headers, unless an offset leaves `u64`. -/
theorem nextHeaderOffset_eq_ok {headerOffset payloadSize next : Nat} :
    nextHeaderOffset headerOffset payloadSize = ok next ↔
      payloadSize + 512 < 2 ^ 64 ∧ next = headerOffset + ((payloadSize + 511) / 512 * 512 + 512) ∧
        next < 2 ^ 64 := by
  by_cases hs : payloadSize + 512 < 2 ^ 64
  · rw [nextHeaderOffset, roundToMultiple_partitionHeaderSize hs, ok_bind, bind_eq_ok]
    simp only [checkedAddOr_eq_ok, partitionHeaderSize]
    constructor
    · rintro ⟨partSize, ⟨-, hpart⟩, hnext, hn⟩
      subst hpart
      exact ⟨hs, hn, hn ▸ hnext⟩
    · rintro ⟨-, hn, hnext⟩
      exact ⟨_, ⟨by omega, rfl⟩, hn ▸ hnext, hn⟩
  · rw [nextHeaderOffset, roundToMultiple_partitionHeaderSize_of_le (by omega), panic_bind]
    simp only [reduceCtorEq, false_iff]
    exact fun h ↦ hs h.1

/-- The walk moves forward by at least a header and stays aligned. -/
theorem le_nextHeaderOffset {headerOffset payloadSize next : Nat}
    (h : nextHeaderOffset headerOffset payloadSize = ok next) :
    headerOffset + partitionHeaderSize ≤ next ∧
      next % partitionHeaderSize = headerOffset % partitionHeaderSize ∧ next < 2 ^ 64 := by
  obtain ⟨-, rfl, hnext⟩ := nextHeaderOffset_eq_ok.mp h
  simp only [partitionHeaderSize]
  omega

/-- The loop of `locate_microdroid_header` from the header at `headerOffset`: the microdroid
manager's header, or the first empty slot, with its offset. -/
def locateFrom (file : List UInt8) (headerOffset : Nat) :
    Outcome InstanceError (Option PartitionHeader × Nat) := do
  let ⟨header, _hread⟩ ← (readHeaderAt file headerOffset).attach
  if header.uuid = microdroidPartitionUuid then pure (some header, headerOffset)
  else if header.uuid = Uuid.nil then pure (none, headerOffset)
  else
    let ⟨next, _hnext⟩ ← (nextHeaderOffset headerOffset header.payloadSize).attach
    locateFrom file next
termination_by file.length - headerOffset
decreasing_by
  have := lt_length_of_readHeaderAt _hread
  have := (le_nextHeaderOffset _hnext).1
  simp only [partitionHeaderSize] at this
  omega

/-- `locate_microdroid_header`: the first partition header is just after the disk header. -/
def locateMicrodroidHeader (file : List UInt8) : Outcome InstanceError (Option PartitionHeader × Nat) :=
  locateFrom file diskHeaderSize

/-- One turn of the loop, without the proofs that carry its termination. -/
theorem locateFrom_eq (file : List UInt8) (headerOffset : Nat) :
    locateFrom file headerOffset = readHeaderAt file headerOffset >>= fun header ↦
      if header.uuid = microdroidPartitionUuid then pure (some header, headerOffset)
      else if header.uuid = Uuid.nil then pure (none, headerOffset)
      else nextHeaderOffset headerOffset header.payloadSize >>= locateFrom file := by
  rw [locateFrom]
  apply attach_bind_eq_bind
  intro header _
  dsimp only
  split_ifs
  · rfl
  · rfl
  · apply attach_bind_eq_bind
    intro next _
    rfl

theorem microdroidPartitionUuid_ne_nil : microdroidPartitionUuid ≠ Uuid.nil := by decide

/-- The header at `h` belongs to another loader, and the walk steps from it to the header at
`n`. -/
def StepsOver (file : List UInt8) (h n : Nat) : Prop :=
  ∃ header, readHeaderAt file h = ok header ∧ header.uuid ≠ microdroidPartitionUuid ∧
    header.uuid ≠ Uuid.nil ∧ nextHeaderOffset h header.payloadSize = ok n

/-- The walk from the header at `h` reaches the header at `o`, stepping over partitions of other
loaders. -/
def Reaches (file : List UInt8) : Nat → Nat → Prop := Relation.ReflTransGen (StepsOver file)

/-- The walk stops at the header at `o` with `r`: the microdroid manager's header, or nothing at
an empty slot. -/
def StopsAt (file : List UInt8) (o : Nat) (r : Option PartitionHeader) : Prop :=
  ∃ header, readHeaderAt file o = ok header ∧
    (header.uuid = microdroidPartitionUuid ∧ r = some header ∨ header.uuid = Uuid.nil ∧ r = none)

/-- The partition `[h, n)` of another loader, which the walk from the disk header steps over. -/
def Precedes (file : List UInt8) (h n : Nat) : Prop :=
  Reaches file diskHeaderSize h ∧ StepsOver file h n

theorem locateFrom_of_stepsOver {file : List UInt8} {h n : Nat} (hs : StepsOver file h n) :
    locateFrom file h = locateFrom file n := by
  obtain ⟨header, hread, hmd, hnil, hnext⟩ := hs
  rw [locateFrom_eq, hread, ok_bind, if_neg hmd, if_neg hnil, hnext, ok_bind]

theorem locateFrom_of_reaches {file : List UInt8} {h o : Nat} (hr : Reaches file h o) :
    locateFrom file h = locateFrom file o := by
  induction hr using Relation.ReflTransGen.head_induction_on with
  | refl => rfl
  | head hs _ ih => rw [locateFrom_of_stepsOver hs, ih]

theorem locateFrom_of_stopsAt {file : List UInt8} {o : Nat} {r : Option PartitionHeader}
    (hs : StopsAt file o r) : locateFrom file o = ok (r, o) := by
  obtain ⟨header, hread, ⟨hmd, rfl⟩ | ⟨hnil, rfl⟩⟩ := hs
  · rw [locateFrom_eq, hread, ok_bind, if_pos hmd, pure_eq]
  · have hmd : header.uuid ≠ microdroidPartitionUuid := hnil ▸ microdroidPartitionUuid_ne_nil.symm
    rw [locateFrom_eq, hread, ok_bind, if_neg hmd, if_pos hnil, pure_eq]

/-- What the walk returns: the header it stops at, after the partitions it steps over. -/
theorem locateFrom_eq_ok {file : List UInt8} {h o : Nat} {r : Option PartitionHeader} :
    locateFrom file h = ok (r, o) ↔ Reaches file h o ∧ StopsAt file o r := by
  constructor
  · -- by the recursion of the walk: each turn stops or steps to the next header
    induction h using locateFrom.induct file with
    | case1 x ih =>
      intro hl
      rw [locateFrom_eq] at hl
      obtain ⟨header, hread, hl⟩ := bind_eq_ok.mp hl
      split_ifs at hl with hmd hnil
      · simp only [pure_eq, ok.injEq, Prod.mk.injEq] at hl
        obtain ⟨rfl, rfl⟩ := hl
        exact ⟨Relation.ReflTransGen.refl, header, hread, .inl ⟨hmd, rfl⟩⟩
      · simp only [pure_eq, ok.injEq, Prod.mk.injEq] at hl
        obtain ⟨rfl, rfl⟩ := hl
        exact ⟨Relation.ReflTransGen.refl, header, hread, .inr ⟨hnil, rfl⟩⟩
      · obtain ⟨next, hnext, hl⟩ := bind_eq_ok.mp hl
        obtain ⟨hr, hs⟩ := ih header hread next hnext hl
        exact ⟨Relation.ReflTransGen.head ⟨header, hread, hmd, hnil, hnext⟩ hr, hs⟩
  · rintro ⟨hr, hs⟩
    rw [locateFrom_of_reaches hr, locateFrom_of_stopsAt hs]

/-- The walk only moves forward, by whole headers. -/
theorem le_of_reaches {file : List UInt8} {h o : Nat} (hr : Reaches file h o) :
    h ≤ o ∧ o % partitionHeaderSize = h % partitionHeaderSize := by
  induction hr using Relation.ReflTransGen.head_induction_on with
  | refl => exact ⟨Nat.le_refl _, rfl⟩
  | head hs _ ih =>
    obtain ⟨header, -, -, -, hnext⟩ := hs
    have := le_nextHeaderOffset hnext
    omega

/-- Every partition the walk steps over ends before the header where it stops. -/
theorem le_of_precedes {file : List UInt8} {h n o : Nat} {r : Option PartitionHeader}
    (hl : locateMicrodroidHeader file = ok (r, o)) (hp : Precedes file h n) : n ≤ o := by
  obtain ⟨hr, hs⟩ := hp
  have hn : locateFrom file n = ok (r, o) := by
    rw [← locateFrom_of_stepsOver hs, ← locateFrom_of_reaches hr]
    exact hl
  exact (le_of_reaches (locateFrom_eq_ok.mp hn).1).1

/-- A header is read from its first 24 bytes. -/
theorem readHeaderAt_congr {file file' : List UInt8} {h : Nat} (hlen : file'.length = file.length)
    (hbytes : ∀ i, h ≤ i → i < h + 24 → file'[i]? = file[i]?) :
    readHeaderAt file' h = readHeaderAt file h := by
  unfold readHeaderAt
  rw [readExactAt_congr hlen (fun i hi hi' ↦ hbytes i hi (by omega)),
    readExactAt_congr hlen (fun i hi hi' ↦ hbytes i (by omega) (by omega))]

theorem stepsOver_congr {file file' : List UInt8} {h n : Nat} (hlen : file'.length = file.length)
    (hbytes : ∀ i < n, file'[i]? = file[i]?) (hs : StepsOver file h n) : StepsOver file' h n := by
  obtain ⟨header, hread, hmd, hnil, hnext⟩ := hs
  have hn := (le_nextHeaderOffset hnext).1
  simp only [partitionHeaderSize] at hn
  refine ⟨header, ?_, hmd, hnil, hnext⟩
  rw [readHeaderAt_congr hlen (fun i _ hi ↦ hbytes i (by omega)), hread]

/-- A walk sees only the bytes before the header it reaches. -/
theorem reaches_congr {file file' : List UInt8} {h o : Nat} (hlen : file'.length = file.length)
    (hbytes : ∀ i < o, file'[i]? = file[i]?) (hr : Reaches file h o) : Reaches file' h o := by
  induction hr using Relation.ReflTransGen.head_induction_on with
  | refl => exact Relation.ReflTransGen.refl
  | head hs hr ih =>
    have hno := (le_of_reaches hr).1
    exact Relation.ReflTransGen.head (stepsOver_congr hlen (fun i hi ↦ hbytes i (by omega)) hs) ih

/-! ## Where the walk panics -/

theorem io_ne_panic {α : Type} (r : Except IoError α) : io r ≠ .panic := ofExcept_ne_panic _

/-- A header is read at an aligned offset without panicking. -/
theorem readHeaderAt_ne_panic {file : List UInt8} {h : Nat} (hal : h % partitionHeaderSize = 0) :
    readHeaderAt file h ≠ .panic := by
  unfold readHeaderAt
  rw [assert_of_true hal, ok_bind]
  exact bind_ne_panic (io_ne_panic _) fun _ _ ↦ bind_ne_panic (io_ne_panic _) fun _ _ ↦ nofun

/-- The step over a partition panics exactly when `round_to_multiple` overflows. -/
theorem nextHeaderOffset_eq_panic {headerOffset payloadSize : Nat} :
    nextHeaderOffset headerOffset payloadSize = .panic ↔
      2 ^ 64 ≤ payloadSize + partitionHeaderSize := by
  have hP : partitionHeaderSize = 512 := rfl
  by_cases hs : payloadSize + 512 < 2 ^ 64
  · have hret : nextHeaderOffset headerOffset payloadSize ≠ .panic := by
      rw [nextHeaderOffset, roundToMultiple_partitionHeaderSize hs, ok_bind]
      exact bind_ne_panic (checkedAddOr_ne_panic _ _ _ _) fun _ _ ↦ checkedAddOr_ne_panic _ _ _ _
    exact iff_of_false hret (by omega)
  · rw [nextHeaderOffset, roundToMultiple_partitionHeaderSize_of_le (by omega), panic_bind]
    exact iff_of_true rfl (by omega)

/-- The header at `o` belongs to another loader, and its payload size makes the step over it
overflow. -/
def OverflowsAt (file : List UInt8) (o : Nat) : Prop :=
  ∃ header, readHeaderAt file o = ok header ∧ header.uuid ≠ microdroidPartitionUuid ∧
    header.uuid ≠ Uuid.nil ∧ 2 ^ 64 ≤ header.payloadSize + partitionHeaderSize

/-- From an aligned header, the walk panics exactly when it reaches a partition of another loader
whose payload size overflows. -/
theorem locateFrom_eq_panic {file : List UInt8} {h : Nat} (hal : h % partitionHeaderSize = 0) :
    locateFrom file h = .panic ↔ ∃ o, Reaches file h o ∧ OverflowsAt file o := by
  constructor
  · -- by the recursion of the walk, which stays aligned
    induction h using locateFrom.induct file with
    | case1 x ih =>
      intro hl
      rw [locateFrom_eq] at hl
      rcases hread : readHeaderAt file x with header | e | _
      · rw [hread, ok_bind] at hl
        split_ifs at hl with hmd hnil
        rcases hnext : nextHeaderOffset x header.payloadSize with next | e | _
        · rw [hnext, ok_bind] at hl
          have hal' : next % partitionHeaderSize = 0 := (le_nextHeaderOffset hnext).2.1.trans hal
          obtain ⟨o, hr, ho⟩ := ih header hread next hnext hal' hl
          exact ⟨o, Relation.ReflTransGen.head ⟨header, hread, hmd, hnil, hnext⟩ hr, ho⟩
        · rw [hnext, err_bind] at hl
          cases hl
        · exact ⟨x, Relation.ReflTransGen.refl, header, hread, hmd, hnil,
            nextHeaderOffset_eq_panic.mp hnext⟩
      · rw [hread, err_bind] at hl
        cases hl
      · exact absurd hread (readHeaderAt_ne_panic hal)
  · rintro ⟨o, hr, header, hread, hmd, hnil, hoverflow⟩
    rw [locateFrom_of_reaches hr, locateFrom_eq, hread, ok_bind, if_neg hmd, if_neg hnil,
      nextHeaderOffset_eq_panic.mpr hoverflow, panic_bind]

/-! ## Reading and writing the identity data -/

/-- `read_microdroid_data`: the identity data in the microdroid manager's partition, if there is
one. -/
def readMicrodroidData {K : Type} (aead : Aead K) (codec : Codec MicrodroidData) (getKey : Option K)
    (file : List UInt8) : Outcome InstanceError (Option MicrodroidData) := do
  let (header, offset) ← locateMicrodroidHeader file
  match header with
  | none => pure none
  | some header =>
    let payloadOffset ← checkedAdd 64 offset partitionHeaderSize
    let nonce ← io (readExactAt file payloadOffset 12)
    -- the size comes from the header, and the nonce is read before it is checked
    let payloadSize ← checkedSub header.payloadSize 12
    let data ← vecZeroed payloadSize
    let data ← io (readExactAt file (payloadOffset + 12) data.length)
    -- the header is read again, whole, as the additional data
    let aad ← io (readExactAt file offset partitionHeaderSize)
    let key ← okOr getKey .key
    let plaintext ← okOr (aead.openInPlace key ((FixedBytes.zero 12).setPrefix nonce) aad data) .crypto
    let microdroidData ← okOr (codec.fromSlice plaintext) .cbor
    pure (some microdroidData)

/-- The `if let` of `write_microdroid_data`: an existing partition keeps its payload size, and an
empty slot gets a header. -/
def writePartitionHeader (header : Option PartitionHeader) (offset payloadSize : Nat) :
    Stateful (List UInt8) InstanceError Unit :=
  match header with
  | some header =>
    if header.payloadSize ≠ payloadSize then
      Stateful.lift (err (.payloadSizeChange header.payloadSize payloadSize))
    else pure ()
  | none => ioStep (writeHeaderAt offset microdroidPartitionUuid payloadSize)

/-- `write_microdroid_data`, with the nonce `rand::random` draws and the result of `blkflsbuf` on
the device. -/
def writeMicrodroidData {K : Type} (aead : Aead K) (codec : Codec MicrodroidData) (getKey : Option K)
    (blkflsbuf : Except InstanceError Unit) (nonce : FixedBytes 12) (microdroidData : MicrodroidData) :
    Stateful (List UInt8) InstanceError Unit := do
  let (header, offset) ← Stateful.lift (locateMicrodroidHeader (← Stateful.get))
  let data ← Stateful.lift (okOr (codec.toVec microdroidData) .cbor)
  let payloadSize ← Stateful.lift (do checkedAdd 64 (← checkedAdd 64 data.length aead.tagLen) 12)
  writePartitionHeader header offset payloadSize
  -- the header as the device now holds it is the additional data
  let aad ← Stateful.lift (io (readExactAt (← Stateful.get) offset partitionHeaderSize))
  let nonceOffset ← Stateful.lift (checkedAdd 64 offset partitionHeaderSize)
  ioStep (writeAllAt nonceOffset nonce.toList)
  let key ← Stateful.lift (okOr getKey .key)
  let data ← Stateful.lift (okOr (aead.sealInPlaceAppendTag key nonce aad data) .crypto)
  -- the ciphertext goes where the nonce left the file position
  ioStep (writeAllAt (nonceOffset + 12) data)
  Stateful.lift (ofExcept blkflsbuf)

theorem writeHeaderAt_eq_ok {headerOffset payloadSize : Nat} {uuid : Uuid} {file file' : List UInt8} :
    writeHeaderAt headerOffset uuid payloadSize file = .ok (.ok (), file') ↔
      headerOffset + 24 ≤ file.length ∧
        file' = overwrite (overwrite file headerOffset uuid.bytes.toList) (headerOffset + 16)
          (leBytes 8 payloadSize) := by
  unfold writeHeaderAt
  rw [Stateful.bind_eq_ok]
  constructor
  · rintro ⟨⟨⟩, file₁, h₁, h₂⟩
    obtain ⟨-, rfl⟩ := writeAllAt_eq_ok.mp h₁
    obtain ⟨hfit, rfl⟩ := writeAllAt_eq_ok.mp h₂
    rw [length_overwrite, length_leBytes] at hfit
    exact ⟨by omega, rfl⟩
  · rintro ⟨h, rfl⟩
    have h₁ : headerOffset + uuid.bytes.toList.length ≤ file.length := by
      rw [uuid.bytes.length_toList]
      omega
    refine ⟨(), _, writeAllAt_eq_ok.mpr ⟨h₁, rfl⟩, writeAllAt_eq_ok.mpr ⟨?_, rfl⟩⟩
    rw [length_overwrite, length_leBytes]
    omega

/-- The header `write_header_at` leaves is read back. -/
theorem readHeaderAt_of_writeHeaderAt {file file' : List UInt8} {headerOffset payloadSize : Nat}
    {uuid : Uuid} (hal : headerOffset % partitionHeaderSize = 0) (hs : payloadSize < 2 ^ 64)
    (hw : writeHeaderAt headerOffset uuid payloadSize file = .ok (.ok (), file')) :
    readHeaderAt file' headerOffset = ok ⟨uuid, payloadSize⟩ := by
  obtain ⟨hlen, rfl⟩ := writeHeaderAt_eq_ok.mp hw
  have hu : uuid.bytes.toList.length = 16 := uuid.bytes.length_toList
  have huuid : bytesAt (overwrite (overwrite file headerOffset uuid.bytes.toList) (headerOffset + 16)
      (leBytes 8 payloadSize)) headerOffset 16 = uuid.bytes.toList := by
    rw [bytesAt_overwrite_of_le _ (Nat.le_refl _)]
    exact bytesAt_overwrite_of_length hu (by omega)
  have hsize : bytesAt (overwrite (overwrite file headerOffset uuid.bytes.toList) (headerOffset + 16)
      (leBytes 8 payloadSize)) (headerOffset + 16) 8 = leBytes 8 payloadSize :=
    bytesAt_overwrite_of_length (length_leBytes 8 payloadSize) (by rw [length_overwrite]; omega)
  have hvalue : ofLeBytes (leBytes 8 payloadSize) = payloadSize := by
    rw [ofLeBytes_leBytes, Nat.mod_eq_of_lt (by simpa using hs)]
  have hlen' : (overwrite (overwrite file headerOffset uuid.bytes.toList) (headerOffset + 16)
      (leBytes 8 payloadSize)).length = file.length := by
    simp only [length_overwrite]
  unfold readHeaderAt
  rw [assert_of_true hal, ok_bind, readExactAt_of_le (by omega), io_ok, ok_bind,
    readExactAt_of_le (by omega), io_ok, ok_bind, huuid, hsize, hvalue, pure_eq,
    FixedBytes.ext_iff.mpr (FixedBytes.toList_setPrefix_of_length _ hu)]

section Write

variable {K : Type} (aead : Aead K) (codec : Codec MicrodroidData) (getKey : Option K)
  (blkflsbuf : Except InstanceError Unit) (nonce : FixedBytes 12)

theorem writePartitionHeader_eq_ok {r : Option PartitionHeader} {offset payloadSize : Nat}
    {file file₁ : List UInt8} :
    writePartitionHeader r offset payloadSize file = .ok (.ok (), file₁) ↔
      (∃ header, r = some header ∧ header.payloadSize = payloadSize ∧ file₁ = file) ∨
        r = none ∧ writeHeaderAt offset microdroidPartitionUuid payloadSize file = .ok (.ok (), file₁) := by
  cases r with
  | none => simp [writePartitionHeader, ioStep, Stateful.mapError_eq_ok]
  | some header =>
    by_cases hsize : header.payloadSize = payloadSize
    · simp [writePartitionHeader, hsize, eq_comm]
    · simp [writePartitionHeader, hsize]

/-- The partition header after the `if let` of the write: the microdroid manager's, with the
new payload size, and nothing before it changed. -/
theorem header_of_writePartitionHeader {file file₁ : List UInt8} {r : Option PartitionHeader}
    {offset payloadSize : Nat} (hloc : locateMicrodroidHeader file = ok (r, offset))
    (hs : payloadSize < 2 ^ 64) (hheader : writePartitionHeader r offset payloadSize file = .ok (.ok (), file₁)) :
    file₁.length = file.length ∧ (∀ i < offset, file₁[i]? = file[i]?) ∧
      readHeaderAt file₁ offset = ok ⟨microdroidPartitionUuid, payloadSize⟩ := by
  obtain ⟨hr, header, hread, hstop⟩ := locateFrom_eq_ok.mp hloc
  rcases writePartitionHeader_eq_ok.mp hheader with ⟨header', rfl, hsize, rfl⟩ | ⟨rfl, hw⟩
  · obtain ⟨hmd, hsome⟩ : header.uuid = microdroidPartitionUuid ∧ some header' = some header := by
      rcases hstop with h | ⟨-, h⟩
      · exact h
      · cases h
    cases hsome
    refine ⟨rfl, fun _ _ ↦ rfl, ?_⟩
    rw [hread, ← hmd, ← hsize]
  · have hal : offset % partitionHeaderSize = 0 := by
      rw [(le_of_reaches hr).2]
      rfl
    obtain ⟨hlen, rfl⟩ := writeHeaderAt_eq_ok.mp hw
    refine ⟨by simp, fun i hi ↦ ?_, readHeaderAt_of_writeHeaderAt hal hs hw⟩
    rw [getElem?_overwrite_of_lt _ (by omega), getElem?_overwrite_of_lt _ hi]

/-- What a write that returns has done: it found where the partition goes, kept or wrote its
header, and wrote the nonce and then the sealed data after the header. -/
theorem writeMicrodroidData_eq_ok {d : MicrodroidData} {file file' : List UInt8} :
    writeMicrodroidData aead codec getKey blkflsbuf nonce d file = .ok (.ok (), file') ↔
      ∃ r offset data file₁ key sealed,
        locateMicrodroidHeader file = ok (r, offset) ∧ codec.toVec d = some data ∧
        data.length + aead.tagLen + 12 < 2 ^ 64 ∧
        writePartitionHeader r offset (data.length + aead.tagLen + 12) file = .ok (.ok (), file₁) ∧
        offset + partitionHeaderSize < 2 ^ 64 ∧ getKey = some key ∧
        aead.sealInPlaceAppendTag key nonce (bytesAt file₁ offset partitionHeaderSize) data =
          some sealed ∧
        offset + partitionHeaderSize + 12 + sealed.length ≤ file₁.length ∧
        blkflsbuf = .ok () ∧
        file' = overwrite (overwrite file₁ (offset + partitionHeaderSize) nonce.toList)
          (offset + partitionHeaderSize + 12) sealed := by
  have hP : partitionHeaderSize = 512 := rfl
  unfold writeMicrodroidData
  constructor
  · intro hw
    simp only [Stateful.get_bind, Stateful.bind_eq_ok, ioStep, Stateful.mapError_eq_ok,
      Stateful.lift_eq_ok, and_assoc, exists_and_left, exists_eq_left] at hw
    obtain ⟨⟨r, offset⟩, hloc, data, hdata, payloadSize, hsize, ⟨⟩, file₁, hheader, aad, haad,
      nonceOffset, hnonceOffset, ⟨⟩, file₂, hnonce, key, hkey, sealed, hseal, ⟨⟩, file₃, hsealed,
      hflush, rfl⟩ := hw
    obtain ⟨withTag, htag, hsize⟩ := bind_eq_ok.mp hsize
    obtain ⟨-, rfl⟩ := checkedAdd_eq_ok.mp htag
    obtain ⟨hpayload, rfl⟩ := checkedAdd_eq_ok.mp hsize
    obtain ⟨-, rfl⟩ := readExactAt_eq_ok.mp (io_eq_ok.mp haad)
    obtain ⟨hoffset, rfl⟩ := checkedAdd_eq_ok.mp hnonceOffset
    obtain ⟨-, rfl⟩ := writeAllAt_eq_ok.mp hnonce
    obtain ⟨hfit, rfl⟩ := writeAllAt_eq_ok.mp hsealed
    rw [length_overwrite] at hfit
    exact ⟨r, offset, data, file₁, key, sealed, hloc, okOr_eq_ok.mp hdata, hpayload, hheader, hoffset,
      okOr_eq_ok.mp hkey, okOr_eq_ok.mp hseal, hfit, ofExcept_eq_ok.mp hflush, rfl⟩
  · rintro ⟨r, offset, data, file₁, key, sealed, hloc, hdata, hpayload, hheader, hoffset, hkey, hseal,
      hfit, hflush, rfl⟩
    have hsize : (do checkedAdd 64 (← checkedAdd 64 data.length aead.tagLen) 12 : Outcome InstanceError Nat) =
        ok (data.length + aead.tagLen + 12) := by
      rw [checkedAdd_of_lt (by omega), ok_bind, checkedAdd_of_lt hpayload]
    have haad : io (readExactAt file₁ offset partitionHeaderSize) =
        ok (bytesAt file₁ offset partitionHeaderSize) := by
      rw [readExactAt_of_le (by omega), io_ok]
    have hnonce : writeAllAt (offset + partitionHeaderSize) nonce.toList file₁ =
        .ok (.ok (), overwrite file₁ (offset + partitionHeaderSize) nonce.toList) :=
      writeAllAt_eq_ok.mpr ⟨by rw [nonce.length_toList]; omega, rfl⟩
    have hsealed : writeAllAt (offset + partitionHeaderSize + 12) sealed
        (overwrite file₁ (offset + partitionHeaderSize) nonce.toList) =
        .ok (.ok (), overwrite (overwrite file₁ (offset + partitionHeaderSize) nonce.toList)
          (offset + partitionHeaderSize + 12) sealed) :=
      writeAllAt_eq_ok.mpr ⟨by rw [length_overwrite]; exact hfit, rfl⟩
    simp only [Stateful.get_bind, Stateful.bind_eq_ok, ioStep, Stateful.mapError_eq_ok,
      Stateful.lift_eq_ok, and_assoc, exists_and_left, exists_eq_left]
    exact ⟨(r, offset), hloc, data, okOr_eq_ok.mpr hdata, _, hsize, (), file₁, hheader, _, haad, _,
      checkedAdd_of_lt hoffset, (), _, hnonce, key, okOr_eq_ok.mpr hkey, sealed, okOr_eq_ok.mpr hseal,
      (), _, hsealed, ofExcept_eq_ok.mpr hflush, rfl⟩

/-- A read of a partition whose header, nonce and sealed data are in place opens the data. -/
theorem readMicrodroidData_of_sealed {file : List UInt8} {offset : Nat} {key : K}
    {data sealed : List UInt8} {d : MicrodroidData}
    (hloc : locateMicrodroidHeader file =
      ok (some ⟨microdroidPartitionUuid, sealed.length + 12⟩, offset))
    (hoffset : offset + partitionHeaderSize < 2 ^ 64)
    (hfit : offset + partitionHeaderSize + 12 + sealed.length ≤ file.length)
    (hnonce : bytesAt file (offset + partitionHeaderSize) 12 = nonce.toList)
    (hsealed : bytesAt file (offset + partitionHeaderSize + 12) sealed.length = sealed)
    (hkey : getKey = some key)
    (hseal : aead.sealInPlaceAppendTag key nonce (bytesAt file offset partitionHeaderSize) data =
      some sealed)
    (hdata : codec.toVec d = some data) :
    readMicrodroidData aead codec getKey file = ok (some d) := by
  have hnonce' : (FixedBytes.zero 12).setPrefix nonce.toList = nonce :=
    FixedBytes.ext (FixedBytes.toList_setPrefix_of_length _ nonce.length_toList)
  unfold readMicrodroidData
  rw [hloc, ok_bind]
  dsimp only
  rw [checkedAdd_of_lt hoffset, ok_bind, readExactAt_of_le (by omega), io_ok, ok_bind, hnonce,
    checkedSub_of_le (by omega), ok_bind, Nat.add_sub_cancel, vecZeroed_of_le (aead.length_seal_le hseal),
    ok_bind, List.length_replicate, readExactAt_of_le hfit, io_ok, ok_bind, hsealed,
    readExactAt_of_le (by simp only [partitionHeaderSize] at hfit ⊢; omega), io_ok, ok_bind, hkey,
    okOr_some, ok_bind, hnonce', aead.open_seal hseal, okOr_some, ok_bind,
    codec.fromSlice_toVec hdata, okOr_some, ok_bind, pure_eq]

/-- `read_microdroid_data` panics exactly when the walk does, or at the partition it finds: when
the payload offset leaves `u64`, or when the nonce is there and the payload size is shorter than
the nonce or longer than a `Vec` holds. -/
theorem readMicrodroidData_eq_panic {file : List UInt8} :
    readMicrodroidData aead codec getKey file = .panic ↔
      locateMicrodroidHeader file = .panic ∨
        ∃ header offset, locateMicrodroidHeader file = ok (some header, offset) ∧
          (2 ^ 64 ≤ offset + partitionHeaderSize ∨
            offset + partitionHeaderSize + 12 ≤ file.length ∧
              (header.payloadSize < 12 ∨ isizeMax < header.payloadSize - 12)) := by
  unfold readMicrodroidData
  rcases hloc : locateMicrodroidHeader file with ⟨_ | header, offset⟩ | e | _
  · simp
  · rw [ok_bind]
    simp only [reduceCtorEq, false_or, ok.injEq, Prod.mk.injEq, Option.some.injEq, and_assoc,
      exists_and_left, exists_eq_left']
    by_cases hoffset : offset + partitionHeaderSize < 2 ^ 64
    · rw [checkedAdd_of_lt hoffset, ok_bind]
      by_cases hfit : offset + partitionHeaderSize + 12 ≤ file.length
      · rw [readExactAt_of_le hfit, io_ok, ok_bind]
        by_cases hsmall : 12 ≤ header.payloadSize
        · rw [checkedSub_of_le hsmall, ok_bind]
          by_cases hbig : header.payloadSize - 12 ≤ isizeMax
          · rw [vecZeroed_of_le hbig, ok_bind]
            refine iff_of_false (bind_ne_panic (io_ne_panic _) fun _ _ ↦ ?_) (by omega)
            refine bind_ne_panic (io_ne_panic _) fun _ _ ↦ ?_
            refine bind_ne_panic (okOr_ne_panic _ _) fun _ _ ↦ ?_
            refine bind_ne_panic (okOr_ne_panic _ _) fun _ _ ↦ ?_
            exact bind_ne_panic (okOr_ne_panic _ _) fun _ _ ↦ nofun
          · rw [vecZeroed_of_lt (by omega), panic_bind]
            exact iff_of_true rfl (by omega)
        · rw [show (checkedSub header.payloadSize 12 : Outcome InstanceError Nat) = .panic from
            if_neg hsmall, panic_bind]
          exact iff_of_true rfl (by omega)
      · rw [readExactAt, if_neg (by omega)]
        exact iff_of_false nofun (by omega)
    · rw [checkedAdd_of_le (by omega), panic_bind]
      exact iff_of_true rfl (by omega)
  · simp
  · simp

/-- The UUID of another loader's partition. -/
def otherLoaderUuid : Uuid := ⟨⟨List.replicate 16 1, List.length_replicate⟩⟩

/-- An instance disk whose first partition belongs to another loader and claims `u64::MAX`
payload bytes. -/
def overflowDisk : List UInt8 :=
  validDiskHeader ++ headerBytes otherLoaderUuid (2 ^ 64 - 1) ++ List.replicate 512 0

/-- An instance disk whose microdroid partition claims no payload, followed by a nonce. -/
def shortPayloadDisk : List UInt8 :=
  validDiskHeader ++ headerBytes microdroidPartitionUuid 0 ++ List.replicate 12 0

/-- An instance disk whose microdroid partition claims more bytes than a `Vec` holds. -/
def hugePayloadDisk : List UInt8 :=
  validDiskHeader ++ headerBytes microdroidPartitionUuid (2 ^ 63 + 12) ++ List.replicate 12 0

theorem instanceDisk_reader_panics :
    roundToMultiple (2 ^ 64 - 1) partitionHeaderSize = .panic ∧
      checkDiskHeader overflowDisk = ok () ∧ locateMicrodroidHeader overflowDisk = .panic ∧
      readMicrodroidData aead codec getKey overflowDisk = .panic ∧
      checkDiskHeader shortPayloadDisk = ok () ∧
      readMicrodroidData aead codec getKey shortPayloadDisk = .panic ∧
      checkDiskHeader hugePayloadDisk = ok () ∧
      readMicrodroidData aead codec getKey hugePayloadDisk = .panic := by
  have hal : validDiskHeader.length % partitionHeaderSize = 0 := by
    rw [length_validDiskHeader]
    rfl
  have hoverflow : locateMicrodroidHeader overflowDisk = .panic := by
    have hread := readHeaderAt_headerBytes _ (List.replicate 512 0) otherLoaderUuid (2 ^ 64 - 1) hal
      (by decide)
    rw [length_validDiskHeader] at hread
    exact (locateFrom_eq_panic (by decide)).mpr
      ⟨diskHeaderSize, Relation.ReflTransGen.refl, _, hread, by decide, by decide, by decide⟩
  have hfound : ∀ payloadSize, payloadSize < 2 ^ 64 →
      locateMicrodroidHeader (validDiskHeader ++ headerBytes microdroidPartitionUuid payloadSize ++
        List.replicate 12 0) = ok (some ⟨microdroidPartitionUuid, payloadSize⟩, diskHeaderSize) := by
    intro payloadSize hs
    have hread := readHeaderAt_headerBytes _ (List.replicate 12 0) microdroidPartitionUuid _ hal hs
    rw [length_validDiskHeader] at hread
    exact locateFrom_of_stopsAt ⟨_, hread, .inl ⟨rfl, rfl⟩⟩
  have hnonce : ∀ payloadSize, diskHeaderSize + partitionHeaderSize + 12 ≤
      (validDiskHeader ++ headerBytes microdroidPartitionUuid payloadSize ++
        List.replicate 12 0).length := by
    intro payloadSize
    apply Nat.le_of_eq
    rw [List.length_append, List.length_append, length_validDiskHeader, length_headerBytes,
      List.length_replicate]
  refine ⟨roundToMultiple_partitionHeaderSize_of_le (by decide), ?_, hoverflow,
    (readMicrodroidData_eq_panic aead codec getKey).mpr (.inl hoverflow), ?_,
    (readMicrodroidData_eq_panic aead codec getKey).mpr
      (.inr ⟨_, _, hfound 0 (by decide), .inr ⟨hnonce 0, .inl (by decide)⟩⟩), ?_,
    (readMicrodroidData_eq_panic aead codec getKey).mpr
      (.inr ⟨_, _, hfound (2 ^ 63 + 12) (by decide), .inr ⟨hnonce _, .inr (by decide)⟩⟩)⟩
  · rw [overflowDisk, List.append_assoc]
    exact checkDiskHeader_validDiskHeader _
  · rw [shortPayloadDisk, List.append_assoc]
    exact checkDiskHeader_validDiskHeader _
  · rw [hugePayloadDisk, List.append_assoc]
    exact checkDiskHeader_validDiskHeader _

/-- Identity data that `write_microdroid_data` wrote is read back by `read_microdroid_data`,
and the write changed no byte of a partition that precedes the microdroid manager's. -/
theorem writeMicrodroidData_roundTrip {d : MicrodroidData} {file file' : List UInt8}
    (hw : writeMicrodroidData aead codec getKey blkflsbuf nonce d file = .ok (.ok (), file')) :
    readMicrodroidData aead codec getKey file' = ok (some d) ∧
      ∀ h n, Precedes file h n → bytesAt file' h (n - h) = bytesAt file h (n - h) := by
  obtain ⟨r, offset, data, file₁, key, sealed, hloc, hdata, hpayload, hheader, hoffset, hkey, hseal,
    hfit, -, rfl⟩ := (writeMicrodroidData_eq_ok aead codec getKey blkflsbuf nonce).mp hw
  obtain ⟨hlen₁, hbelow₁, hread₁⟩ := header_of_writePartitionHeader hloc hpayload hheader
  have hsealedLen : sealed.length = data.length + aead.tagLen := aead.length_seal hseal
  have hP : partitionHeaderSize = 512 := rfl
  have hlen : (overwrite (overwrite file₁ (offset + partitionHeaderSize) nonce.toList)
      (offset + partitionHeaderSize + 12) sealed).length = file.length := by
    simp only [length_overwrite, hlen₁]
  have hbelow : ∀ i < offset + partitionHeaderSize,
      (overwrite (overwrite file₁ (offset + partitionHeaderSize) nonce.toList)
        (offset + partitionHeaderSize + 12) sealed)[i]? = file₁[i]? := by
    intro i hi
    rw [getElem?_overwrite_of_lt _ (by omega), getElem?_overwrite_of_lt _ hi]
  constructor
  · obtain ⟨hr, -⟩ := locateFrom_eq_ok.mp hloc
    have hr' := reaches_congr hlen
      (fun i hi ↦ (hbelow i (by omega)).trans (hbelow₁ i hi)) hr
    have hstop : StopsAt (overwrite (overwrite file₁ (offset + partitionHeaderSize) nonce.toList)
        (offset + partitionHeaderSize + 12) sealed) offset
        (some ⟨microdroidPartitionUuid, sealed.length + 12⟩) := by
      refine ⟨_, ?_, .inl ⟨rfl, rfl⟩⟩
      rw [readHeaderAt_congr (hlen.trans hlen₁.symm) (fun i _ hi ↦ hbelow i (by omega)), hread₁,
        hsealedLen]
    apply readMicrodroidData_of_sealed aead codec getKey nonce
      (locateFrom_eq_ok.mpr ⟨hr', hstop⟩) hoffset (by rw [hlen, ← hlen₁]; omega) _ _ hkey _ hdata
    · rw [bytesAt_overwrite_of_le _ (Nat.le_refl _)]
      exact bytesAt_overwrite_of_length nonce.length_toList (by omega)
    · exact bytesAt_overwrite_self (by rw [length_overwrite]; omega)
    · rwa [bytesAt_congr (fun i _ hi ↦ hbelow i (by omega))]
  · intro h n hp
    have hn := le_of_precedes hloc hp
    exact bytesAt_congr fun i _ hi ↦ (hbelow i (by omega)).trans (hbelow₁ i (by omega))

end Write

/-- A zeroed device has an empty slot at every aligned header. -/
theorem readHeaderAt_replicate {n headerOffset : Nat} (hal : headerOffset % partitionHeaderSize = 0)
    (hn : headerOffset + 24 ≤ n) : readHeaderAt (List.replicate n 0) headerOffset = ok ⟨Uuid.nil, 0⟩ := by
  have hzero : ∀ k m, k + m ≤ n → bytesAt (List.replicate n (0 : UInt8)) k m = List.replicate m 0 := by
    intro k m hkm
    rw [bytesAt, List.drop_replicate, List.take_replicate, Nat.min_eq_left (by omega)]
  have hnil : (FixedBytes.zero 16).setPrefix (List.replicate 16 0) = FixedBytes.zero 16 :=
    FixedBytes.ext (FixedBytes.toList_setPrefix_of_length _ List.length_replicate)
  unfold readHeaderAt
  rw [assert_of_true hal, ok_bind, readExactAt_of_le (by simp; omega), io_ok, ok_bind,
    readExactAt_of_le (by simp; omega), io_ok, ok_bind, hzero _ _ (by omega), hzero _ _ (by omega), hnil]
  rfl

/-- An AEAD whose sealing keeps the data as it is, with no tag. -/
def plainAead : Aead Unit where
  tagLen := 0
  sealInPlaceAppendTag _ _ _ data := if data.length ≤ isizeMax then some data else none
  openInPlace _ _ _ sealed := some sealed
  length_seal h := by
    split at h
    · cases h
      rfl
    · cases h
  length_seal_le h := by
    split at h
    · cases h
      assumption
    · cases h
  open_seal h := by
    split at h
    · cases h
      rfl
    · cases h

/-- Identity data with every field empty. -/
def blankData : MicrodroidData := ⟨[], ⟨[], []⟩, [], []⟩

/-- A codec for the blank identity data alone, which it encodes as no bytes. -/
def blankCodec : Codec MicrodroidData where
  toVec d := if d = blankData then some [] else none
  fromSlice bytes := if bytes = [] then some blankData else none
  fromSlice_toVec h := by
    split at h
    · cases h
      subst_vars
      rfl
    · cases h

/-- The UUID of another loader's partition: sixteen `0x11` bytes. -/
def foreignUuid : Uuid := ⟨⟨List.replicate 16 0x11, List.length_replicate⟩⟩

/-- A zeroed device whose first partition, with a 100-byte payload, belongs to another loader; the
next slot, at 1536, is empty. -/
def foreignDisk : List UInt8 :=
  overwrite (overwrite (List.replicate 2060 0) 512 foreignUuid.bytes.toList) 528 (leBytes 8 100)

theorem writeMicrodroidData_roundTrip_foreign :
    ∃ file', writeMicrodroidData plainAead blankCodec (some ()) (.ok ()) (FixedBytes.zero 12) blankData
        foreignDisk = .ok (.ok (), file') ∧
      readMicrodroidData plainAead blankCodec (some ()) file' = ok (some blankData) ∧
      Precedes foreignDisk 512 1536 ∧
      ∀ h n, Precedes foreignDisk h n → bytesAt file' h (n - h) = bytesAt foreignDisk h (n - h) := by
  have hlen : foreignDisk.length = 2060 := by
    simp only [foreignDisk, length_overwrite, List.length_replicate]
  have hstep : StepsOver foreignDisk 512 1536 :=
    ⟨_, readHeaderAt_of_writeHeaderAt (by decide) (by decide)
      (writeHeaderAt_eq_ok.mpr ⟨by rw [List.length_replicate]; decide, rfl⟩), by decide, by decide, rfl⟩
  have hempty : readHeaderAt foreignDisk 1536 = ok ⟨Uuid.nil, 0⟩ := by
    rw [readHeaderAt_congr (hlen.trans List.length_replicate.symm) fun i hi _ ↦ ?_]
    · exact readHeaderAt_replicate (by decide) (by decide)
    · have h₁ : 528 + (leBytes 8 100).length ≤ i := by
        rw [length_leBytes]
        omega
      have h₂ : 512 + foreignUuid.bytes.toList.length ≤ i := by
        rw [foreignUuid.bytes.length_toList]
        omega
      rw [foreignDisk, getElem?_overwrite, if_pos (.inr h₁), getElem?_overwrite, if_pos (.inr h₂)]
  have hloc : locateMicrodroidHeader foreignDisk = ok (none, 1536) :=
    (locateFrom_of_stepsOver hstep).trans (locateFrom_of_stopsAt ⟨_, hempty, .inr ⟨rfl, rfl⟩⟩)
  have hw : writeMicrodroidData plainAead blankCodec (some ()) (.ok ()) (FixedBytes.zero 12) blankData
      foreignDisk = .ok (.ok (), _) :=
    (writeMicrodroidData_eq_ok _ _ _ _ _).mpr ⟨none, 1536, [], _, (), [], hloc, rfl, by decide,
      writePartitionHeader_eq_ok.mpr (.inr ⟨rfl, writeHeaderAt_eq_ok.mpr ⟨hlen ▸ by decide, rfl⟩⟩),
      by decide, rfl, rfl, by simp only [length_overwrite, hlen, List.length_nil, partitionHeaderSize]; decide,
      rfl, rfl⟩
  exact ⟨_, hw, (writeMicrodroidData_roundTrip _ _ _ _ _ hw).1, ⟨.refl, hstep⟩,
    (writeMicrodroidData_roundTrip _ _ _ _ _ hw).2⟩

end Virtualization.MicrodroidManager
