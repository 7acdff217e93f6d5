import Virtualization.Lib.Cursor

/-!
# The idsig file

`apksigv4.rs` decodes and encodes the idsig file of APK signature scheme v4: a version, two
structs of length-prefixed byte arrays, each behind its size, the size of the Merkle tree, then
the tree.  The model reads and writes through `std::io::Cursor<Vec<u8>>` (`VecCursor`), the reader
and the writer of the module's own tests.

A struct's size is written by seeking back over a zero once its fields are written, and skipped
when it is read, since every field carries its own length.  So the two directions are inverse on
an image that can be said exactly (`headerBytes`): decoding reads a header back whatever sizes
it carries (`fromReader_headerBytes`), every header it accepts has that form
(`fromReader_eq_ok`), and encoding writes the header with the sizes of the structs
(`appends_writeInto`).
-/

namespace Virtualization.Idsig

open Outcome VecCursor

/-! ## Errors and enumerations -/

/-- The errors of `apksigv4.rs`, each with the values its message shows. -/
inductive V4Error where
  /-- An error of the reader or the writer, passed on by `?`. -/
  | io (e : IoError)
  /-- "`val` is an unsupported version". -/
  | unsupportedVersion (val : UInt32)
  /-- "`val` is an unsupported hash algorithm". -/
  | unsupportedHashAlgorithm (val : UInt32)
  /-- "`val`, in hexadecimal, is an unsupported signature algorithm". -/
  | unsupportedSignatureAlgorithm (val : UInt32)
  /-- "merkle tree is `size` bytes, but only `copied` bytes are written.". -/
  | treeSizeMismatch (size : UInt32) (copied : Nat)
deriving DecidableEq, Repr

/-- A step of the reader or the writer, its error passed on by `?`. -/
def ofIoResult {α : Type} (x : Stateful VecCursor IoError α) : Stateful VecCursor V4Error α :=
  Stateful.mapError V4Error.io x

@[simp] theorem ofIoResult_streamPosition (inner : List UInt8) (pos : Nat) :
    ofIoResult streamPosition ⟨inner, pos⟩ = .ok (.ok pos, ⟨inner, pos⟩) := rfl

@[simp] theorem ofIoResult_seekStart (inner : List UInt8) (pos pos' : Nat) :
    ofIoResult (seekStart pos') ⟨inner, pos⟩ = .ok (.ok pos', ⟨inner, pos'⟩) := rfl

section Primitive

variable {α : Type}

/-- `FromPrimitive::from_u32` of a field-less enum: the first variant whose discriminant is the
value. -/
def fromPrimitive (variants : List α) (discriminant : α → UInt32) (val : UInt32) : Option α :=
  variants.find? fun a ↦ discriminant a == val

theorem discriminant_of_fromPrimitive {variants : List α} {discriminant : α → UInt32}
    {val : UInt32} {a : α} (h : fromPrimitive variants discriminant val = some a) :
    discriminant a = val := by
  simpa using List.find?_some h

end Primitive

/-- `Version`. -/
inductive Version where
  /-- Version 2, the only supported version. -/
  | v2
deriving DecidableEq, Repr

/-- `HashAlgorithm`. -/
inductive HashAlgorithm where
  /-- SHA2-256. -/
  | sha256
deriving DecidableEq, Repr

/-- `SignatureAlgorithmId`. -/
inductive SignatureAlgorithmId where
  | rsassaPssSha2_256
  | rsassaPssSha2_512
  | rsassaPkcs1Sha2_256
  | rsassaPkcs1Sha2_512
  | ecdsaSha2_256
  | ecdsaSha2_512
  | dsaSha2_256
deriving DecidableEq, Repr

-- `ToPrimitive::to_u32` of a field-less enum is its discriminant, so the `unwrap` of
-- `write_into` never fails.

/-- The discriminant of a `Version`. -/
def Version.toU32 : Version → UInt32
  | .v2 => 2

/-- The discriminant of a `HashAlgorithm`. -/
def HashAlgorithm.toU32 : HashAlgorithm → UInt32
  | .sha256 => 1

/-- The discriminant of a `SignatureAlgorithmId`. -/
def SignatureAlgorithmId.toU32 : SignatureAlgorithmId → UInt32
  | .rsassaPssSha2_256 => 0x0101
  | .rsassaPssSha2_512 => 0x0102
  | .rsassaPkcs1Sha2_256 => 0x0103
  | .rsassaPkcs1Sha2_512 => 0x0104
  | .ecdsaSha2_256 => 0x0201
  | .ecdsaSha2_512 => 0x0202
  | .dsaSha2_256 => 0x0301

def Version.fromU32 (val : UInt32) : Option Version := fromPrimitive [.v2] Version.toU32 val

def HashAlgorithm.fromU32 (val : UInt32) : Option HashAlgorithm :=
  fromPrimitive [.sha256] HashAlgorithm.toU32 val

def SignatureAlgorithmId.fromU32 (val : UInt32) : Option SignatureAlgorithmId :=
  fromPrimitive [.rsassaPssSha2_256, .rsassaPssSha2_512, .rsassaPkcs1Sha2_256,
    .rsassaPkcs1Sha2_512, .ecdsaSha2_256, .ecdsaSha2_512, .dsaSha2_256]
    SignatureAlgorithmId.toU32 val

/-- `Version::from`. -/
def Version.from (val : UInt32) : Outcome V4Error Version :=
  okOr (Version.fromU32 val) (.unsupportedVersion val)

/-- `HashAlgorithm::from`. -/
def HashAlgorithm.from (val : UInt32) : Outcome V4Error HashAlgorithm :=
  okOr (HashAlgorithm.fromU32 val) (.unsupportedHashAlgorithm val)

/-- `SignatureAlgorithmId::from`. -/
def SignatureAlgorithmId.from (val : UInt32) : Outcome V4Error SignatureAlgorithmId :=
  okOr (SignatureAlgorithmId.fromU32 val) (.unsupportedSignatureAlgorithm val)

-- The discriminants are distinct: each enum reads its own discriminant back.

theorem Version.fromU32_toU32 : ∀ v : Version, Version.fromU32 v.toU32 = some v
  | .v2 => by decide

theorem HashAlgorithm.fromU32_toU32 :
    ∀ a : HashAlgorithm, HashAlgorithm.fromU32 a.toU32 = some a
  | .sha256 => by decide

theorem SignatureAlgorithmId.fromU32_toU32 (a : SignatureAlgorithmId) :
    SignatureAlgorithmId.fromU32 a.toU32 = some a := by
  cases a <;> decide

/-! ## The structs -/

/-- `HashingInfo`: how the APK is hashed. -/
structure HashingInfo where
  hashAlgorithm : HashAlgorithm
  log2Blocksize : UInt8
  salt : List UInt8
  rawRootHash : List UInt8
deriving DecidableEq, Repr

/-- `SigningInfo`: what verifies the idsig file. -/
structure SigningInfo where
  apkDigest : List UInt8
  x509Certificate : List UInt8
  additionalData : List UInt8
  publicKey : List UInt8
  signatureAlgorithmId : SignatureAlgorithmId
  signature : List UInt8
deriving DecidableEq, Repr

/-- `V4Signature<Cursor<Vec<u8>>>`: the fields of an idsig file and the reader they were read
from, which holds the tree from `merkleTreeOffset` on. -/
structure V4Signature where
  version : Version
  hashingInfo : HashingInfo
  signingInfo : SigningInfo
  merkleTreeSize : UInt32
  merkleTreeOffset : Nat
  data : VecCursor

/-! ## Decoding -/

/-- `read_sized_array`: a `u32` length, then that many bytes. -/
def readSizedArray : Stateful VecCursor V4Error (List UInt8) := do
  let size ← ofIoResult readU32Le
  ofIoResult (readExact size.toNat)

/-- The frame of `HashingInfo::from` and `SigningInfo::from`: the size of the struct, which the
fields' own lengths make unneeded, then the fields. -/
def readSizePrefixed {α : Type} (fields : Stateful VecCursor V4Error α) :
    Stateful VecCursor V4Error α := do
  let _ ← ofIoResult readU32Le
  fields

/-- `HashingInfo::from`. -/
def HashingInfo.fromReader : Stateful VecCursor V4Error HashingInfo := readSizePrefixed do
  let val ← ofIoResult readU32Le
  let hashAlgorithm ← Stateful.lift (HashAlgorithm.from val)
  let log2Blocksize ← ofIoResult readU8
  let salt ← readSizedArray
  let rawRootHash ← readSizedArray
  pure ⟨hashAlgorithm, log2Blocksize, salt, rawRootHash⟩

/-- `SigningInfo::from`. -/
def SigningInfo.fromReader : Stateful VecCursor V4Error SigningInfo := readSizePrefixed do
  let apkDigest ← readSizedArray
  let x509Certificate ← readSizedArray
  let additionalData ← readSizedArray
  let publicKey ← readSizedArray
  let val ← ofIoResult readU32Le
  let signatureAlgorithmId ← Stateful.lift (SignatureAlgorithmId.from val)
  let signature ← readSizedArray
  pure ⟨apkDigest, x509Certificate, additionalData, publicKey, signatureAlgorithmId, signature⟩

/-- `V4Signature::from`: the header, then the reader itself, left at the start of the tree. -/
def V4Signature.fromReader : Stateful VecCursor V4Error V4Signature := do
  let val ← ofIoResult readU32Le
  let version ← Stateful.lift (Version.from val)
  let hashingInfo ← HashingInfo.fromReader
  let signingInfo ← SigningInfo.fromReader
  let merkleTreeSize ← ofIoResult readU32Le
  let merkleTreeOffset ← ofIoResult streamPosition
  let data ← Stateful.get
  pure ⟨version, hashingInfo, signingInfo, merkleTreeSize, merkleTreeOffset, data⟩

/-- `V4Signature::merkle_tree`: the bytes of `data` from the tree's offset on.  A seek and a
`read_to_end` on a cursor do not fail, and the position they leave is not read again. -/
def V4Signature.merkleTree (v : V4Signature) : List UInt8 := v.data.inner.drop v.merkleTreeOffset

/-! ## Encoding -/

/-- `write_sized_array`: the length as a `u32`, then the bytes. -/
def writeSizedArray (data : List UInt8) : Stateful VecCursor V4Error Unit := do
  ofIoResult (writeU32Le (UInt32.ofNat data.length))
  ofIoResult (writeAll data)

/-- The frame of `HashingInfo::write_into` and `SigningInfo::write_into`: a zero where the size of
the struct goes, the fields, then their size written over the zero. -/
def writeSizePrefixed (fields : Stateful VecCursor V4Error Unit) :
    Stateful VecCursor V4Error Unit := do
  let start ← ofIoResult streamPosition
  ofIoResult (writeU32Le 0)
  fields
  let endPos ← ofIoResult streamPosition
  -- `end - start - size_of::<u32>()`, in `u64`
  let size ← Stateful.lift (checkedSub endPos start >>= fun d ↦ checkedSub d 4)
  let _ ← ofIoResult (seekStart start)
  ofIoResult (writeU32Le (UInt32.ofNat size))
  let _ ← ofIoResult (seekStart endPos)
  pure ()

/-- `HashingInfo::write_into`. -/
def HashingInfo.writeInto (hi : HashingInfo) : Stateful VecCursor V4Error Unit :=
  writeSizePrefixed do
    ofIoResult (writeU32Le hi.hashAlgorithm.toU32)
    ofIoResult (writeU8 hi.log2Blocksize)
    writeSizedArray hi.salt
    writeSizedArray hi.rawRootHash

/-- `SigningInfo::write_into`. -/
def SigningInfo.writeInto (si : SigningInfo) : Stateful VecCursor V4Error Unit :=
  writeSizePrefixed do
    writeSizedArray si.apkDigest
    writeSizedArray si.x509Certificate
    writeSizedArray si.additionalData
    writeSizedArray si.publicKey
    ofIoResult (writeU32Le si.signatureAlgorithmId.toU32)
    writeSizedArray si.signature

/-- `V4Signature::write_into`: the header, then the tree copied from `data`, which must be as long
as the header says.  The position `copy` leaves in `data` is not modelled: every reader of `data`
seeks first. -/
def V4Signature.writeInto (v : V4Signature) : Stateful VecCursor V4Error Unit := do
  ofIoResult (writeU32Le v.version.toU32)
  v.hashingInfo.writeInto
  v.signingInfo.writeInto
  ofIoResult (writeU32Le v.merkleTreeSize)
  -- `copy` from `data`, sought to the tree's offset, to its end
  let tree := v.data.inner.drop v.merkleTreeOffset
  ofIoResult (writeAll tree)
  if tree.length ≠ v.merkleTreeSize.toNat then
    Stateful.lift (err (.treeSizeMismatch v.merkleTreeSize tree.length))
  else pure ()

/-! ## The format -/

/-- A length-prefixed array: its length as a `u32`, then its bytes.  A struct behind its size has
the same form. -/
def sizedArray (data : List UInt8) : List UInt8 :=
  leBytes 4 (UInt32.ofNat data.length).toNat ++ data

/-- The fields of a `HashingInfo`, after its size. -/
def HashingInfo.body (hi : HashingInfo) : List UInt8 :=
  leBytes 4 hi.hashAlgorithm.toU32.toNat ++ ([hi.log2Blocksize] ++
    (sizedArray hi.salt ++ sizedArray hi.rawRootHash))

/-- The fields of a `SigningInfo`, after its size. -/
def SigningInfo.body (si : SigningInfo) : List UInt8 :=
  sizedArray si.apkDigest ++ (sizedArray si.x509Certificate ++ (sizedArray si.additionalData ++
    (sizedArray si.publicKey ++ (leBytes 4 si.signatureAlgorithmId.toU32.toNat ++
      sizedArray si.signature))))

/-- The header of an idsig file, with the sizes it gives its two structs. -/
def headerBytes (version : Version) (hiSize : UInt32) (hi : HashingInfo) (siSize : UInt32)
    (si : SigningInfo) (merkleTreeSize : UInt32) : List UInt8 :=
  leBytes 4 version.toU32.toNat ++ ((leBytes 4 hiSize.toNat ++ hi.body) ++
    ((leBytes 4 siSize.toNat ++ si.body) ++ leBytes 4 merkleTreeSize.toNat))

/-- The header `write_into` writes: each struct behind its size. -/
def V4Signature.header (v : V4Signature) : List UInt8 :=
  headerBytes v.version (UInt32.ofNat v.hashingInfo.body.length) v.hashingInfo
    (UInt32.ofNat v.signingInfo.body.length) v.signingInfo v.merkleTreeSize

/-- Every array of a `HashingInfo` has a `u32` length. -/
structure HashingInfo.Fits (hi : HashingInfo) : Prop where
  salt_lt : hi.salt.length < 2 ^ 32
  rawRootHash_lt : hi.rawRootHash.length < 2 ^ 32

/-- Every array of a `SigningInfo` has a `u32` length. -/
structure SigningInfo.Fits (si : SigningInfo) : Prop where
  apkDigest_lt : si.apkDigest.length < 2 ^ 32
  x509Certificate_lt : si.x509Certificate.length < 2 ^ 32
  additionalData_lt : si.additionalData.length < 2 ^ 32
  publicKey_lt : si.publicKey.length < 2 ^ 32
  signature_lt : si.signature.length < 2 ^ 32

/-- The size of the `HashingInfo` is the second word of a header. -/
theorem bytesAt_headerBytes_hiSize (version : Version) (hiSize : UInt32) (hi : HashingInfo)
    (siSize : UInt32) (si : SigningInfo) (merkleTreeSize : UInt32) (tree : List UInt8) :
    bytesAt (headerBytes version hiSize hi siSize si merkleTreeSize ++ tree) 4 4 =
      leBytes 4 hiSize.toNat := by
  simp only [headerBytes, bytesAt, List.append_assoc]
  rw [List.drop_left' (length_leBytes _ _), List.take_left' (length_leBytes _ _)]

/-- The size of the `SigningInfo` follows the `HashingInfo`. -/
theorem bytesAt_headerBytes_siSize (version : Version) (hiSize : UInt32) (hi : HashingInfo)
    (siSize : UInt32) (si : SigningInfo) (merkleTreeSize : UInt32) (tree : List UInt8) :
    bytesAt (headerBytes version hiSize hi siSize si merkleTreeSize ++ tree)
      (8 + hi.body.length) 4 = leBytes 4 siSize.toNat := by
  have hbuf : headerBytes version hiSize hi siSize si merkleTreeSize ++ tree =
      (leBytes 4 version.toU32.toNat ++ (leBytes 4 hiSize.toNat ++ hi.body)) ++
        (leBytes 4 siSize.toNat ++ (si.body ++ (leBytes 4 merkleTreeSize.toNat ++ tree))) := by
    simp only [headerBytes, List.append_assoc]
  have hpre : (leBytes 4 version.toU32.toNat ++ (leBytes 4 hiSize.toNat ++ hi.body)).length =
      8 + hi.body.length := by
    simp only [List.length_append, length_leBytes]
    omega
  rw [hbuf, bytesAt, List.drop_left' hpre, List.take_left' (length_leBytes _ _)]

/-! ## Decoding reads the format -/

section Decode

variable {α : Type}

theorem reads_ofIoResult {x : Stateful VecCursor IoError α} {a : α} {bs : List UInt8}
    (hx : Reads x a bs) : Reads (ofIoResult x) a bs :=
  hx.mapError

theorem readsOnly_ofIoResult {x : Stateful VecCursor IoError α} {P : α → List UInt8 → Prop}
    (hx : ReadsOnly x P) : ReadsOnly (ofIoResult x) P :=
  hx.mapError

/-- A length below `2 ^ 32` is its own `u32`. -/
theorem toNat_ofNat_length {data : List UInt8} (h : data.length < 2 ^ 32) :
    (UInt32.ofNat data.length).toNat = data.length :=
  UInt32.toNat_ofNat_of_lt' h

theorem reads_readSizedArray {data : List UInt8} (h : data.length < 2 ^ 32) :
    Reads readSizedArray data (sizedArray data) := by
  refine (reads_ofIoResult (reads_readU32Le _)).bind ?_
  rw [toNat_ofNat_length h]
  exact reads_ofIoResult (reads_readExact data)

/-- An array read has its length in front of it. -/
theorem readsOnly_readSizedArray : ReadsOnly readSizedArray fun data bs ↦ bs = sizedArray data := by
  refine (readsOnly_ofIoResult readsOnly_readU32Le).bind fun size bs hbs ↦ ?_
  refine (readsOnly_ofIoResult (readsOnly_readExact _)).mono ?_
  rintro data cs ⟨rfl, hlen⟩
  rw [hbs, sizedArray, hlen, UInt32.ofNat_toNat]

/-- The size in front of a struct is read whatever it is. -/
theorem reads_readSizePrefixed {fields : Stateful VecCursor V4Error α} {a : α} {bs : List UInt8}
    (size : UInt32) (h : Reads fields a bs) :
    Reads (readSizePrefixed fields) a (leBytes 4 size.toNat ++ bs) :=
  (reads_ofIoResult (reads_readU32Le size)).bind h

theorem ReadsOnly.readSizePrefixed {fields : Stateful VecCursor V4Error α}
    {R : α → List UInt8 → Prop}
    (h : ∀ size : UInt32, ReadsOnly fields fun a cs ↦ R a (leBytes 4 size.toNat ++ cs)) :
    ReadsOnly (readSizePrefixed fields) R :=
  (readsOnly_ofIoResult readsOnly_readU32Le).bind fun size _ hbs ↦ hbs ▸ h size

theorem reads_hashingInfo (size : UInt32) {hi : HashingInfo} (h : hi.Fits) :
    Reads HashingInfo.fromReader hi (leBytes 4 size.toNat ++ hi.body) := by
  refine reads_readSizePrefixed size ?_
  refine (reads_ofIoResult (reads_readU32Le _)).bind ?_
  refine Reads.lift_bind (okOr_eq_ok.2 (HashAlgorithm.fromU32_toU32 hi.hashAlgorithm)) ?_
  refine (reads_ofIoResult (reads_readU8 _)).bind ?_
  refine (reads_readSizedArray h.salt_lt).bind ?_
  exact (reads_readSizedArray h.rawRootHash_lt).bind_pure

theorem reads_signingInfo (size : UInt32) {si : SigningInfo} (h : si.Fits) :
    Reads SigningInfo.fromReader si (leBytes 4 size.toNat ++ si.body) := by
  refine reads_readSizePrefixed size ?_
  refine (reads_readSizedArray h.apkDigest_lt).bind ?_
  refine (reads_readSizedArray h.x509Certificate_lt).bind ?_
  refine (reads_readSizedArray h.additionalData_lt).bind ?_
  refine (reads_readSizedArray h.publicKey_lt).bind ?_
  refine (reads_ofIoResult (reads_readU32Le _)).bind ?_
  refine Reads.lift_bind
    (okOr_eq_ok.2 (SignatureAlgorithmId.fromU32_toU32 si.signatureAlgorithmId)) ?_
  exact (reads_readSizedArray h.signature_lt).bind_pure

/-- A `HashingInfo` read is its fields behind some size. -/
theorem readsOnly_hashingInfo :
    ReadsOnly HashingInfo.fromReader fun hi bs ↦ ∃ size : UInt32, bs = leBytes 4 size.toNat ++ hi.body := by
  refine ReadsOnly.readSizePrefixed fun size ↦ ?_
  refine (readsOnly_ofIoResult readsOnly_readU32Le).bind fun val bs₁ hbs₁ ↦ ?_
  refine ReadsOnly.lift_bind fun hashAlgorithm halg ↦ ?_
  refine (readsOnly_ofIoResult readsOnly_readU8).bind fun log2Blocksize bs₂ hbs₂ ↦ ?_
  refine readsOnly_readSizedArray.bind fun salt bs₃ hbs₃ ↦ ?_
  refine readsOnly_readSizedArray.bind fun rawRootHash bs₄ hbs₄ ↦ readsOnly_pure ?_
  have hval : hashAlgorithm.toU32 = val := discriminant_of_fromPrimitive (okOr_eq_ok.1 halg)
  subst hbs₁ hbs₂ hbs₃ hbs₄ hval
  exact ⟨size, by simp only [HashingInfo.body, List.append_nil]⟩

/-- A `SigningInfo` read is its fields behind some size. -/
theorem readsOnly_signingInfo :
    ReadsOnly SigningInfo.fromReader fun si bs ↦ ∃ size : UInt32, bs = leBytes 4 size.toNat ++ si.body := by
  refine ReadsOnly.readSizePrefixed fun size ↦ ?_
  refine readsOnly_readSizedArray.bind fun apkDigest bs₁ hbs₁ ↦ ?_
  refine readsOnly_readSizedArray.bind fun x509Certificate bs₂ hbs₂ ↦ ?_
  refine readsOnly_readSizedArray.bind fun additionalData bs₃ hbs₃ ↦ ?_
  refine readsOnly_readSizedArray.bind fun publicKey bs₄ hbs₄ ↦ ?_
  refine (readsOnly_ofIoResult readsOnly_readU32Le).bind fun val bs₅ hbs₅ ↦ ?_
  refine ReadsOnly.lift_bind fun signatureAlgorithmId halg ↦ ?_
  refine readsOnly_readSizedArray.bind fun signature bs₆ hbs₆ ↦ readsOnly_pure ?_
  have hval : signatureAlgorithmId.toU32 = val := discriminant_of_fromPrimitive (okOr_eq_ok.1 halg)
  subst hbs₁ hbs₂ hbs₃ hbs₄ hbs₅ hbs₆ hval
  exact ⟨size, by simp only [SigningInfo.body, List.append_nil]⟩

end Decode

/-- Decoding reads a header back whatever sizes it gives its structs, and leaves the reader at the
tree. -/
theorem fromReader_headerBytes {version : Version} {hi : HashingInfo} {si : SigningInfo}
    (hhi : hi.Fits) (hsi : si.Fits) (hiSize siSize merkleTreeSize : UInt32) (tree : List UInt8) :
    let header := headerBytes version hiSize hi siSize si merkleTreeSize
    V4Signature.fromReader ⟨header ++ tree, 0⟩ =
      .ok (.ok ⟨version, hi, si, merkleTreeSize, header.length, ⟨header ++ tree, header.length⟩⟩,
        ⟨header ++ tree, header.length⟩) := by
  intro header
  have hversion : Version.from version.toU32 = ok version := okOr_eq_ok.2 (version.fromU32_toU32)
  have hbuf : header ++ tree = [] ++ (leBytes 4 version.toU32.toNat ++
      ((leBytes 4 hiSize.toNat ++ hi.body) ++ ((leBytes 4 siSize.toNat ++ si.body) ++
        (leBytes 4 merkleTreeSize.toNat ++ tree)))) := by
    simp only [header, headerBytes, List.nil_append, List.append_assoc]
  have hpos : (0 : Nat) = ([] : List UInt8).length := rfl
  conv_lhs => rw [hbuf, hpos]
  rw [V4Signature.fromReader, (reads_ofIoResult (reads_readU32Le _)).bind_apply, hversion,
    Stateful.lift_ok_bind, (reads_hashingInfo hiSize hhi).bind_apply,
    (reads_signingInfo siSize hsi).bind_apply, (reads_ofIoResult (reads_readU32Le _)).bind_apply,
    Stateful.bind_of_ok (ofIoResult_streamPosition _ _), Stateful.get_bind, Stateful.pure_apply]
  simp only [header, headerBytes, List.nil_append, List.append_assoc]

/-- Every idsig file decoding accepts is a header, with some sizes for its structs, then the tree,
and the reader is left at the tree. -/
theorem fromReader_eq_ok {b : List UInt8} {v : V4Signature} {c : VecCursor}
    (h : V4Signature.fromReader ⟨b, 0⟩ = .ok (.ok v, c)) :
    ∃ hiSize siSize tree,
      let header :=
        headerBytes v.version hiSize v.hashingInfo siSize v.signingInfo v.merkleTreeSize
      b = header ++ tree ∧ v.merkleTreeOffset = header.length ∧
        v.data = ⟨b, header.length⟩ ∧ c = v.data := by
  replace h : V4Signature.fromReader ⟨[] ++ b, ([] : List UInt8).length⟩ = .ok (.ok v, c) := h
  obtain ⟨val, _, rest₁, rfl, rfl, h₁⟩ := (readsOnly_ofIoResult readsOnly_readU32Le).bind_eq_ok h
  obtain ⟨version, hversion, h₂⟩ := Stateful.lift_bind_eq_ok.1 h₁
  obtain ⟨hi, _, rest₂, ⟨hiSize, rfl⟩, rfl, h₃⟩ := readsOnly_hashingInfo.bind_eq_ok h₂
  obtain ⟨si, _, rest₃, ⟨siSize, rfl⟩, rfl, h₄⟩ := readsOnly_signingInfo.bind_eq_ok h₃
  obtain ⟨merkleTreeSize, _, tree, rfl, rfl, h₅⟩ :=
    (readsOnly_ofIoResult readsOnly_readU32Le).bind_eq_ok h₄
  rw [Stateful.bind_of_ok (ofIoResult_streamPosition _ _), Stateful.get_bind,
    Stateful.pure_apply] at h₅
  obtain ⟨hv, rfl⟩ := Prod.mk.inj (Outcome.ok.inj h₅)
  obtain rfl := Except.ok.inj hv
  obtain rfl : version.toU32 = val := discriminant_of_fromPrimitive (okOr_eq_ok.1 hversion)
  refine ⟨hiSize, siSize, tree, ?_, ?_, ?_, rfl⟩ <;>
    simp only [headerBytes, List.nil_append, List.append_assoc]

/-! ## Encoding writes the format -/

section Encode

theorem appends_ofIoResult {x : Stateful VecCursor IoError Unit} {bs : List UInt8}
    (hx : Appends x bs) : Appends (ofIoResult x) bs :=
  hx.mapError

theorem appends_writeSizedArray (data : List UInt8) :
    Appends (writeSizedArray data) (sizedArray data) :=
  (appends_ofIoResult (appends_writeU32Le _)).bind (appends_ofIoResult (appends_writeAll data))

/-- A struct written behind its size: the size written over the zero is the size of the
fields. -/
theorem appends_writeSizePrefixed {fields : Stateful VecCursor V4Error Unit} {bs : List UInt8}
    (h : Appends fields bs) : Appends (writeSizePrefixed fields) (sizedArray bs) := by
  intro buf
  have hzero := appends_ofIoResult (appends_writeU32Le 0) buf
  have hlen : (leBytes 4 (UInt32.ofNat bs.length).toNat).length =
      (leBytes 4 (0 : UInt32).toNat).length := by
    rw [length_leBytes, length_leBytes]
  have hsize : (checkedSub (buf ++ leBytes 4 (0 : UInt32).toNat ++ bs).length buf.length >>=
      fun d ↦ checkedSub d 4 : Outcome V4Error Nat) = ok bs.length := by
    simp only [List.length_append, length_leBytes]
    rw [checkedSub_of_le (by omega), ok_bind, checkedSub_of_le (by omega)]
    congr 1
    omega
  have hback : ofIoResult (writeU32Le (UInt32.ofNat bs.length))
      ⟨buf ++ leBytes 4 (0 : UInt32).toNat ++ bs, buf.length⟩ =
        .ok (.ok (), ⟨buf ++ leBytes 4 (UInt32.ofNat bs.length).toNat ++ bs,
          (buf ++ leBytes 4 (UInt32.ofNat bs.length).toNat).length⟩) :=
    Stateful.mapError_eq_ok.2 (writeAll_inside _ _ _ _ hlen)
  rw [writeSizePrefixed, Stateful.bind_of_ok (ofIoResult_streamPosition _ _),
    Stateful.bind_of_ok hzero, Stateful.bind_of_ok (h _),
    Stateful.bind_of_ok (ofIoResult_streamPosition _ _), hsize, Stateful.lift_ok_bind,
    Stateful.bind_of_ok (ofIoResult_seekStart _ _ _), Stateful.bind_of_ok hback,
    Stateful.bind_of_ok (ofIoResult_seekStart _ _ _), Stateful.pure_apply]
  simp only [sizedArray, List.append_assoc, List.length_append, length_leBytes]

theorem appends_hashingInfo (hi : HashingInfo) : Appends hi.writeInto (sizedArray hi.body) :=
  appends_writeSizePrefixed <|
    (appends_ofIoResult (appends_writeU32Le _)).bind <|
    (appends_ofIoResult (appends_writeU8 _)).bind <|
    (appends_writeSizedArray _).bind (appends_writeSizedArray _)

theorem appends_signingInfo (si : SigningInfo) : Appends si.writeInto (sizedArray si.body) :=
  appends_writeSizePrefixed <|
    (appends_writeSizedArray _).bind <| (appends_writeSizedArray _).bind <|
    (appends_writeSizedArray _).bind <| (appends_writeSizedArray _).bind <|
    (appends_ofIoResult (appends_writeU32Le _)).bind (appends_writeSizedArray _)

end Encode

/-- Encoding writes the header, each struct behind its size, then the tree, when the tree is as
long as the header says. -/
theorem appends_writeInto {v : V4Signature} (h : v.merkleTree.length = v.merkleTreeSize.toNat) :
    Appends v.writeInto (v.header ++ v.merkleTree) := by
  have hcheck : Appends (if (v.data.inner.drop v.merkleTreeOffset).length ≠ v.merkleTreeSize.toNat
      then Stateful.lift (err (V4Error.treeSizeMismatch v.merkleTreeSize
        (v.data.inner.drop v.merkleTreeOffset).length))
      else (pure () : Stateful VecCursor V4Error Unit)) [] := by
    have htree : (v.data.inner.drop v.merkleTreeOffset).length = v.merkleTreeSize.toNat := h
    rw [if_neg (not_not.2 htree)]
    exact appends_pure
  have hwrite := (appends_ofIoResult (appends_writeU32Le v.version.toU32)).bind <|
    (appends_hashingInfo v.hashingInfo).bind <| (appends_signingInfo v.signingInfo).bind <|
    (appends_ofIoResult (appends_writeU32Le v.merkleTreeSize)).bind <|
    (appends_ofIoResult (appends_writeAll (v.data.inner.drop v.merkleTreeOffset))).bind hcheck
  have hbytes : v.header ++ v.merkleTree = leBytes 4 v.version.toU32.toNat ++
      (sizedArray v.hashingInfo.body ++ (sizedArray v.signingInfo.body ++
        (leBytes 4 v.merkleTreeSize.toNat ++ (v.data.inner.drop v.merkleTreeOffset ++ [])))) := by
    simp only [V4Signature.header, headerBytes, sizedArray, V4Signature.merkleTree,
      List.append_assoc, List.append_nil]
  rw [hbytes]
  exact hwrite

/-! ## The round trip -/

theorem v4Signature_roundTrip :
    (∀ v : V4Signature, v.hashingInfo.Fits → v.signingInfo.Fits →
        (v.data.inner.drop v.merkleTreeOffset).length = v.merkleTreeSize.toNat →
        ∃ w, V4Signature.writeInto v ⟨[], 0⟩ = .ok (.ok (), w) ∧
          ∃ v' c, V4Signature.fromReader ⟨w.inner, 0⟩ = .ok (.ok v', c) ∧
            v'.version = v.version ∧ v'.hashingInfo = v.hashingInfo ∧
            v'.signingInfo = v.signingInfo ∧ v'.merkleTreeSize = v.merkleTreeSize ∧
            v'.merkleTree = v.merkleTree) ∧
    (∀ b v c, V4Signature.fromReader ⟨b, 0⟩ = .ok (.ok v, c) →
        ofLeBytes (bytesAt b 4 4) = v.hashingInfo.body.length →
        ofLeBytes (bytesAt b (8 + v.hashingInfo.body.length) 4) = v.signingInfo.body.length →
        b.length = v.merkleTreeOffset + v.merkleTreeSize.toNat →
        ∃ w, V4Signature.writeInto v ⟨[], 0⟩ = .ok (.ok (), w) ∧ w.inner = b) := by
  refine ⟨fun v hhi hsi hlen ↦ ?_, fun b v c h hhiSize hsiSize hlen ↦ ?_⟩
  · refine ⟨_, appends_writeInto hlen [], _, _,
      fromReader_headerBytes hhi hsi _ _ _ v.merkleTree, rfl, rfl, rfl, rfl, ?_⟩
    exact List.drop_left
  · obtain ⟨hiSize, siSize, tree, rfl, hoff, hdata, -⟩ := fromReader_eq_ok h
    rw [bytesAt_headerBytes_hiSize] at hhiSize
    rw [bytesAt_headerBytes_siSize] at hsiSize
    obtain rfl : UInt32.ofNat v.hashingInfo.body.length = hiSize := by
      rw [← hhiSize, ofNat_ofLeBytes_leBytes]
    obtain rfl : UInt32.ofNat v.signingInfo.body.length = siSize := by
      rw [← hsiSize, ofNat_ofLeBytes_leBytes]
    have htree : v.merkleTree = tree := by
      rw [V4Signature.merkleTree, hdata, hoff]
      exact List.drop_left
    have htreeSize : v.merkleTree.length = v.merkleTreeSize.toNat := by
      rw [List.length_append, hoff] at hlen
      rw [htree]
      omega
    refine ⟨_, appends_writeInto htreeSize [], ?_⟩
    rw [htree]
    rfl

/-- An idsig file with a salt, a root hash, an ECDSA signature over a digest and a certificate, and
an eight-byte tree two bytes into its reader. -/
theorem v4Signature_roundTrip_filled :
    let v : V4Signature :=
      ⟨.v2, ⟨.sha256, 12, [1, 2, 3, 4], List.replicate 32 5⟩,
        ⟨List.replicate 32 6, [0x30, 0x82, 0x01], [], [7, 8], .ecdsaSha2_256, [9, 9, 9]⟩, 8, 2,
        ⟨[0, 0, 1, 2, 3, 4, 5, 6, 7, 8], 0⟩⟩
    v.hashingInfo.Fits ∧ v.signingInfo.Fits ∧
      (v.data.inner.drop v.merkleTreeOffset).length = v.merkleTreeSize.toNat ∧
      ∃ w, V4Signature.writeInto v ⟨[], 0⟩ = .ok (.ok (), w) ∧
        ∃ v' c, V4Signature.fromReader ⟨w.inner, 0⟩ = .ok (.ok v', c) ∧
          v'.version = v.version ∧ v'.hashingInfo = v.hashingInfo ∧
          v'.signingInfo = v.signingInfo ∧ v'.merkleTreeSize = v.merkleTreeSize ∧
          v'.merkleTree = v.merkleTree := by
  intro v
  have hhi : v.hashingInfo.Fits := ⟨by decide, by decide⟩
  have hsi : v.signingInfo.Fits := ⟨by decide, by decide, by decide, by decide, by decide⟩
  have hlen : (v.data.inner.drop v.merkleTreeOffset).length = v.merkleTreeSize.toNat := rfl
  exact ⟨hhi, hsi, hlen, v4Signature_roundTrip.1 v hhi hsi hlen⟩

end Virtualization.Idsig
