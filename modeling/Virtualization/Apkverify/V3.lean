import Virtualization.Apkverify.Sigutil

/-!
# `apkverify::v3`: the records of APK Signature Scheme v3

The v3 block is a length-prefixed list of length-prefixed signers.  A signer holds its signed data
(kept as bytes until its signature is checked), the SDK range it applies to, its signatures and
its public key; the signed data, once parsed, holds the digests, the certificates, the SDK range
and additional attributes.  Each record is read field by field with `ReadFromBytes`, in the order
of the source.

The `u32` fields are read by `get_u32_le`, which panics on a record that ends early: a signer whose
slice holds its signed data and then less than four bytes panics instead of failing, and so does
every list of signers that starts with one (`readSigners_of_short`).  Every length-prefixed field
lies in its enclosing slice (`readLengthPrefixedSlice_eq_ok`), and every list loop ends, since its
elements are length-prefixed records (`ReadsSome`).

`find_signer_and_then` keeps the signers whose range `min_sdk..max_sdk` contains `SDK_INT`; the
range is half-open, so a signer whose `max_sdk` is `SDK_INT` is never chosen
(`findSigner_of_maxSdk_le`).
-/

namespace Virtualization.Apkverify

open Outcome

/-- `APK_SIGNATURE_SCHEME_V3_BLOCK_ID`. -/
def apkSignatureSchemeV3BlockId : UInt32 := 0xf05368c0

/-- `SDK_INT`. -/
def sdkInt : UInt32 := 31

/-- `Signature`. -/
structure Signature where
  signatureAlgorithmId : UInt32
  signature : LengthPrefixed Bytes
deriving DecidableEq, Repr

/-- `Digest`. -/
structure Digest where
  signatureAlgorithmId : UInt32
  digest : LengthPrefixed Bytes
deriving DecidableEq, Repr

/-- `Signer`. -/
structure Signer where
  signedData : LengthPrefixed Bytes
  minSdk : UInt32
  maxSdk : UInt32
  signatures : LengthPrefixed (List (LengthPrefixed Signature))
  publicKey : LengthPrefixed Bytes
deriving DecidableEq, Repr

/-- `SignedData`; a certificate and an additional attribute are `Bytes`. -/
structure SignedData where
  digests : LengthPrefixed (List (LengthPrefixed Digest))
  certificates : LengthPrefixed (List (LengthPrefixed Bytes))
  minSdk : UInt32
  maxSdk : UInt32
  additionalAttributes : LengthPrefixed (List (LengthPrefixed Bytes))
deriving DecidableEq, Repr

/-- `Signers`. -/
abbrev Signers := LengthPrefixed (List (LengthPrefixed Signer))

/-- `ReadFromBytes for Signature`. -/
instance : ReadFromBytes Signature where
  readFromBytes buf := do
    let (signatureAlgorithmId, buf) ← readFromBytes buf
    let (signature, buf) ← readFromBytes buf
    pure (⟨signatureAlgorithmId, signature⟩, buf)

/-- `ReadFromBytes for Digest`. -/
instance : ReadFromBytes Digest where
  readFromBytes buf := do
    let (signatureAlgorithmId, buf) ← readFromBytes buf
    let (digest, buf) ← readFromBytes buf
    pure (⟨signatureAlgorithmId, digest⟩, buf)

/-- `ReadFromBytes for Signer`. -/
instance : ReadFromBytes Signer where
  readFromBytes buf := do
    let (signedData, buf) ← readFromBytes buf
    let (minSdk, buf) ← readFromBytes buf
    let (maxSdk, buf) ← readFromBytes buf
    let (signatures, buf) ← readFromBytes buf
    let (publicKey, buf) ← readFromBytes buf
    pure (⟨signedData, minSdk, maxSdk, signatures, publicKey⟩, buf)

/-- `ReadFromBytes for SignedData`. -/
instance : ReadFromBytes SignedData where
  readFromBytes buf := do
    let (digests, buf) ← readFromBytes buf
    let (certificates, buf) ← readFromBytes buf
    let (minSdk, buf) ← readFromBytes buf
    let (maxSdk, buf) ← readFromBytes buf
    let (additionalAttributes, buf) ← readFromBytes buf
    pure (⟨digests, certificates, minSdk, maxSdk, additionalAttributes⟩, buf)

/-- `Signer::sdk_range().contains(&SDK_INT)`. -/
def Signer.supportsSdk (s : Signer) : Bool := decide (s.minSdk ≤ sdkInt ∧ sdkInt < s.maxSdk)

/-- `find_signer_and_then`, up to the call of its function: the one signer that supports the
platform's SDK. -/
def findSigner (file : List UInt8) (centralDirectoryOffset : Nat) : Outcome ApkError Signer := do
  let block ← findSignature file centralDirectoryOffset apkSignatureSchemeV3BlockId
  let (signers, _) ← (readFromBytes block : Outcome ApkError (Signers × List UInt8))
  match signers.inner.filter (·.inner.supportsSdk) with
  | [signer] => pure signer.inner
  | supported => err (.notOneSigner supported.length)

/-- A signer whose range ends at `SDK_INT` or before is never chosen: when every signer's does,
`find_signer_and_then` finds none, wherever their ranges start. -/
theorem findSigner_of_maxSdk_le {file block rest : List UInt8} {centralDirectoryOffset : Nat}
    {signers : Signers}
    (hblock : findSignature file centralDirectoryOffset apkSignatureSchemeV3BlockId = ok block)
    (hsigners : (readFromBytes block : Outcome ApkError (Signers × List UInt8)) = ok (signers, rest))
    (hmax : ∀ s ∈ signers.inner, s.inner.maxSdk ≤ sdkInt) :
    findSigner file centralDirectoryOffset = err (.notOneSigner 0) := by
  have hnone : signers.inner.filter (·.inner.supportsSdk) = [] := by
    rw [List.filter_eq_nil_iff]
    intro s hs
    simp only [Signer.supportsSdk, decide_eq_true_eq, not_and]
    exact fun _ ↦ UInt32.not_lt.mpr (hmax s hs)
  unfold findSigner
  rw [hblock, ok_bind, hsigners, ok_bind]
  dsimp only
  rw [hnone]
  rfl

/-! ## A signer whose range ends at the platform's SDK -/

/-- A signer for SDK versions 28 to `SDK_INT`, with no signed data, signatures or key. -/
def lastSdkSigner : Signer := ⟨⟨⟨[]⟩⟩, 28, sdkInt, ⟨[]⟩, ⟨⟨[]⟩⟩⟩

/-- The v3 block holding `lastSdkSigner` alone. -/
def lastSdkSigners : List UInt8 :=
  leBytes 4 24 ++ leBytes 4 20 ++ leBytes 4 0 ++ leBytes 4 28 ++ leBytes 4 31 ++ leBytes 4 0 ++
    leBytes 4 0

/-- An APK Signing Block whose one pair is the v3 block, with the Central Directory at 72. -/
def lastSdkApk : List UInt8 :=
  leBytes 8 64 ++ leBytes 8 32 ++ leBytes 4 0xf05368c0 ++ lastSdkSigners ++ leBytes 8 64 ++
    leBytes 16 apkSigBlockMagic

/-- An empty length-prefixed list. -/
theorem readFromBytes_emptyList {α : Type} [ReadFromBytes α] [ReadsSome α] (rest : List UInt8) :
    (readFromBytes (leBytes 4 0 ++ rest) : Outcome ApkError (LengthPrefixed (List α) × List UInt8)) =
      ok (⟨[]⟩, rest) := by
  have hslice : readLengthPrefixedSlice (leBytes 4 0 ++ rest) = ok ([], rest) := by
    simp [readLengthPrefixedSlice, leBytes, ofLeBytes]
  exact readFromBytes_lengthPrefixed_of_ok hslice readVec_nil

theorem findSigner_maxSdk_inclusive :
    lastSdkSigner.minSdk ≤ sdkInt ∧ sdkInt ≤ lastSdkSigner.maxSdk ∧
      findSignature lastSdkApk 72 apkSignatureSchemeV3BlockId = ok lastSdkSigners ∧
      (readFromBytes lastSdkSigners : Outcome ApkError (Signers × List UInt8)) =
        ok (⟨[⟨lastSdkSigner⟩]⟩, []) ∧
      findSigner lastSdkApk 72 = err (.notOneSigner 0) := by
  have hblock : findSignature lastSdkApk 72 apkSignatureSchemeV3BlockId = ok lastSdkSigners := by
    have hfound : findSigningBlock lastSdkApk 72 = ok (0, 72) := by decide
    rw [findSignature_of_found hfound, List.drop_zero, List.take_of_length_le (by decide),
      findSignatureSchemeBlock, checkedSub_of_le (by decide), ok_bind,
      slice_of_le (by decide) (by decide), ok_bind, findPair]
    decide
  have hsigner : (readFromBytes (lastSdkSigners.drop 8) : Outcome ApkError (Signer × List UInt8)) =
      ok (lastSdkSigner, []) := by
    have hsigned : (readFromBytes (lastSdkSigners.drop 8) :
        Outcome ApkError (LengthPrefixed Bytes × List UInt8)) = ok (⟨⟨[]⟩⟩, lastSdkSigners.drop 12) := by
      decide
    have hmin : (readFromBytes (lastSdkSigners.drop 12) : Outcome ApkError (UInt32 × List UInt8)) =
        ok (28, lastSdkSigners.drop 16) := by decide
    have hmax : (readFromBytes (lastSdkSigners.drop 16) : Outcome ApkError (UInt32 × List UInt8)) =
        ok (sdkInt, leBytes 4 0 ++ leBytes 4 0) := by decide
    have hkey : (readFromBytes (leBytes 4 0) : Outcome ApkError (LengthPrefixed Bytes × List UInt8)) =
        ok (⟨⟨[]⟩⟩, []) := by decide
    show (readFromBytes (lastSdkSigners.drop 8) >>= _) = _
    rw [hsigned, ok_bind]
    dsimp only
    rw [hmin, ok_bind]
    dsimp only
    rw [hmax, ok_bind]
    dsimp only
    rw [readFromBytes_emptyList, ok_bind]
    dsimp only
    rw [hkey, ok_bind]
    rfl
  have hsigners : (readFromBytes lastSdkSigners : Outcome ApkError (Signers × List UInt8)) =
      ok (⟨[⟨lastSdkSigner⟩]⟩, []) := by
    have houter : readLengthPrefixedSlice lastSdkSigners = ok (lastSdkSigners.drop 4, []) := by decide
    have hslice : readLengthPrefixedSlice (lastSdkSigners.drop 4) = ok (lastSdkSigners.drop 8, []) := by
      decide
    have hone : (readFromBytes (lastSdkSigners.drop 4) :
        Outcome ApkError (LengthPrefixed Signer × List UInt8)) = ok (⟨lastSdkSigner⟩, []) :=
      readFromBytes_lengthPrefixed_of_ok hslice hsigner
    exact readFromBytes_lengthPrefixed_of_ok houter (readVec_of_single (by decide) hone)
  exact ⟨by decide, by decide, hblock, hsigners, findSigner_of_maxSdk_le hblock hsigners (by decide)⟩

/-! ## A truncated signer -/

/-- A signer whose slice ends less than four bytes after its signed data panics at `min_sdk`,
whatever the signed data. -/
theorem readSigner_of_short {buf inner rest : List UInt8}
    (hslice : readLengthPrefixedSlice buf = ok (inner, rest)) (hrest : rest.length < 4) :
    (readFromBytes buf : Outcome ApkError (Signer × List UInt8)) = panic := by
  have hsigned : (readFromBytes buf : Outcome ApkError (LengthPrefixed Bytes × List UInt8)) =
      ok (⟨⟨inner⟩⟩, rest) :=
    readFromBytes_lengthPrefixed_of_ok hslice rfl
  have hmin : (readFromBytes rest : Outcome ApkError (UInt32 × List UInt8)) = panic :=
    if_pos hrest
  show (readFromBytes buf >>= _) = _
  rw [hsigned, ok_bind]
  dsimp only
  rw [hmin, panic_bind]

/-- A list of signers whose first signer's slice ends less than four bytes after its signed data
panics, whatever follows. -/
theorem readSigners_of_short {buf signers rest first others inner tail : List UInt8}
    (houter : readLengthPrefixedSlice buf = ok (signers, rest)) (hne : signers ≠ [])
    (hfirst : readLengthPrefixedSlice signers = ok (first, others))
    (hsigned : readLengthPrefixedSlice first = ok (inner, tail)) (hshort : tail.length < 4) :
    (readFromBytes buf : Outcome ApkError (Signers × List UInt8)) = panic := by
  have hsigner : (readFromBytes signers : Outcome ApkError (LengthPrefixed Signer × List UInt8)) =
      panic := by
    rw [readFromBytes_lengthPrefixed, hfirst, ok_bind]
    dsimp only
    rw [readSigner_of_short hsigned hshort, panic_bind]
  rw [readFromBytes_lengthPrefixed, houter, ok_bind]
  dsimp only
  rw [readFromBytes_list, readVec_of_ne_nil hne, hsigner, panic_bind, panic_bind]

/-- A signer whose slice holds an empty signed data and nothing else: `min_sdk` is read from an
empty buffer, and the parse of the signers panics. -/
theorem readSigners_truncated :
    (readFromBytes [8, 0, 0, 0, 4, 0, 0, 0, 0, 0, 0, 0] :
      Outcome ApkError (Signers × List UInt8)) = panic := by
  have houter : readLengthPrefixedSlice [8, 0, 0, 0, 4, 0, 0, 0, 0, 0, 0, 0] =
      ok ([4, 0, 0, 0, 0, 0, 0, 0], []) := by decide
  have hfirst : readLengthPrefixedSlice [4, 0, 0, 0, 0, 0, 0, 0] = ok ([0, 0, 0, 0], []) := by
    decide
  have hsigned : readLengthPrefixedSlice [0, 0, 0, 0] = ok ([], []) := by decide
  exact readSigners_of_short houter (List.cons_ne_nil _ _) hfirst hsigned (by decide)

end Virtualization.Apkverify
