import Virtualization.Apkverify.Sigutil
import Virtualization.Lib.BlockDevice
import Virtualization.Lib.Chunks

/-!
# `ApkSections::compute_digest`: the content digest of APK Signature Scheme v2/v3

The digest covers three sections of the APK: the ZIP entries before the APK Signing Block, the
Central Directory, and the End of Central Directory with the Central Directory's offset replaced
by the Signing Block's, so that adding a signature, which moves the Central Directory, keeps the
digest.  Each section is read through a `Take` one chunk of at most 1 MiB at a time; each chunk is
hashed behind `0xa5` and its length, and the chunks' digests, in order, are hashed behind `0x5a`
and their count, a `u32`.

The loop over a section reads the section's `chunks` (`digestSection_eq`), so `compute_digest` is
the chunked digest of `contentSections` for every APK whose sections can be read, and fails
exactly when the signature algorithm names no chunked digest.
-/

namespace Virtualization.Apkverify

open Outcome

/-! ## Algorithms -/

/-- `SIGNATURE_RSA_PSS_WITH_SHA256`. -/
def signatureRsaPssWithSha256 : UInt32 := 0x0101
/-- `SIGNATURE_RSA_PSS_WITH_SHA512`. -/
def signatureRsaPssWithSha512 : UInt32 := 0x0102
/-- `SIGNATURE_RSA_PKCS1_V1_5_WITH_SHA256`. -/
def signatureRsaPkcs1V15WithSha256 : UInt32 := 0x0103
/-- `SIGNATURE_RSA_PKCS1_V1_5_WITH_SHA512`. -/
def signatureRsaPkcs1V15WithSha512 : UInt32 := 0x0104
/-- `SIGNATURE_ECDSA_WITH_SHA256`. -/
def signatureEcdsaWithSha256 : UInt32 := 0x0201
/-- `SIGNATURE_ECDSA_WITH_SHA512`. -/
def signatureEcdsaWithSha512 : UInt32 := 0x0202
/-- `SIGNATURE_DSA_WITH_SHA256`. -/
def signatureDsaWithSha256 : UInt32 := 0x0301
/-- `SIGNATURE_VERITY_RSA_PKCS1_V1_5_WITH_SHA256`. -/
def signatureVerityRsaPkcs1V15WithSha256 : UInt32 := 0x0421
/-- `SIGNATURE_VERITY_ECDSA_WITH_SHA256`. -/
def signatureVerityEcdsaWithSha256 : UInt32 := 0x0423
/-- `SIGNATURE_VERITY_DSA_WITH_SHA256`. -/
def signatureVerityDsaWithSha256 : UInt32 := 0x0425

/-- `CONTENT_DIGEST_CHUNKED_SHA256`. -/
def contentDigestChunkedSha256 : UInt32 := 1
/-- `CONTENT_DIGEST_CHUNKED_SHA512`. -/
def contentDigestChunkedSha512 : UInt32 := 2
/-- `CONTENT_DIGEST_VERITY_CHUNKED_SHA256`. -/
def contentDigestVerityChunkedSha256 : UInt32 := 3

/-- `to_content_digest_algorithm`. -/
def toContentDigestAlgorithm (algorithmId : UInt32) : Outcome ApkError UInt32 :=
  if algorithmId ∈ [signatureRsaPssWithSha256, signatureRsaPkcs1V15WithSha256,
      signatureEcdsaWithSha256, signatureDsaWithSha256] then ok contentDigestChunkedSha256
  else if algorithmId ∈ [signatureRsaPssWithSha512, signatureRsaPkcs1V15WithSha512,
      signatureEcdsaWithSha512] then ok contentDigestChunkedSha512
  else if algorithmId ∈ [signatureVerityRsaPkcs1V15WithSha256, signatureVerityEcdsaWithSha256,
      signatureVerityDsaWithSha256] then ok contentDigestVerityChunkedSha256
  else err (.unknownSignatureAlgorithm algorithmId)

/-- The hash functions of `ring::digest` a digester is made with. -/
structure DigestAlgorithms where
  sha256 : List UInt8 → List UInt8
  sha512 : List UInt8 → List UInt8

/-- `Digester`: the hash function of a content digest. -/
structure Digester where
  algorithm : List UInt8 → List UInt8

/-- `Digester::new`. -/
def Digester.new (algorithms : DigestAlgorithms) (signatureAlgorithmId : UInt32) :
    Outcome ApkError Digester := do
  let digestAlgorithmId ← toContentDigestAlgorithm signatureAlgorithmId
  if digestAlgorithmId = contentDigestChunkedSha256 then pure ⟨algorithms.sha256⟩
  else if digestAlgorithmId = contentDigestChunkedSha512 then pure ⟨algorithms.sha512⟩
  else if digestAlgorithmId = contentDigestVerityChunkedSha256 then err .verityNotImplemented
  else err (.unknownDigestAlgorithm digestAlgorithmId)

/-- `Digester::digest`: the hash of the header, the size as a little-endian `u32`, and the data,
in this order. -/
def Digester.digest (digester : Digester) (data header : List UInt8) (size : UInt32) :
    List UInt8 :=
  digester.algorithm (header ++ leBytes 4 size.toNat ++ data)

/-- `CHUNK_HEADER_TOP`. -/
def chunkHeaderTop : List UInt8 := [0x5a]

/-- `CHUNK_HEADER_MID`. -/
def chunkHeaderMid : List UInt8 := [0xa5]

/-- `CHUNK_SIZE_BYTES`. -/
def chunkSizeBytes : Nat := 1024 * 1024

/-! ## The sections -/

/-- `EOCD_MIN_SIZE`. -/
def eocdMinSize : Nat := 22

/-- `EOCD_CENTRAL_DIRECTORY_OFFSET_FIELD_OFFSET`. -/
def eocdCentralDirectoryOffsetFieldOffset : Nat := 16

/-- `set_central_directory_offset`: the `u32` at byte 16 of the EOCD replaced by `value`. -/
def setCentralDirectoryOffset (buf : List UInt8) (value : UInt32) :
    Outcome ApkError (List UInt8) :=
  if buf.length < eocdMinSize then err (.invalidEocdSize buf.length)
  else ok (overwrite buf eocdCentralDirectoryOffsetFieldOffset (leBytes 4 value.toNat))

/-- `ApkSections` over the file it reads.  `ApkSections::new` takes the EOCD's size as the length
of the ZIP comment, a `u16`, plus `EOCD_MIN_SIZE`, which the structure keeps as its invariant. -/
structure ApkSections where
  inner : List UInt8
  signingBlockOffset : UInt32
  centralDirectoryOffset : UInt32
  centralDirectorySize : UInt32
  eocdOffset : UInt32
  eocdSize : UInt32
  eocdMinSize_le : eocdMinSize ≤ eocdSize.toNat

/-- `Take<Box<dyn Read>>` over a reader: the bytes under it, the position it reads from and the
limit left. -/
structure Take where
  src : List UInt8
  pos : Nat
  limit : Nat

/-- `scoped_read`: the reader sought to `offset`, taken for `size` bytes; seeking a file does not
fail. -/
def scopedRead (src : List UInt8) (offset size : Nat) : Outcome ApkError Take :=
  ok ⟨src, offset, size⟩

namespace ApkSections

/-- `zip_entries`: the bytes before the APK Signing Block. -/
def zipEntries (s : ApkSections) : Outcome ApkError Take :=
  scopedRead s.inner 0 s.signingBlockOffset.toNat

/-- `central_directory`. -/
def centralDirectory (s : ApkSections) : Outcome ApkError Take :=
  scopedRead s.inner s.centralDirectoryOffset.toNat s.centralDirectorySize.toNat

/-- `eocd_for_verification`: the EOCD read into a buffer, with the Central Directory's offset in it
replaced by the Signing Block's. -/
def eocdForVerification (s : ApkSections) : Outcome ApkError Take := do
  let eocd ← readBytes s.inner s.eocdOffset.toNat s.eocdSize.toNat
  let eocd ← setCentralDirectoryOffset eocd s.signingBlockOffset
  pure ⟨eocd, 0, s.eocdSize.toNat⟩

end ApkSections

/-- The `while` loop of `compute_digest` over one section: a chunk of at most 1 MiB read at a
time, its digest appended and the chunk counted in a `u32`. -/
def digestSection (digester : Digester) (data : Take) (digestsOfChunks : List UInt8)
    (chunkCount : Nat) : Outcome ApkError (List UInt8 × Nat) :=
  if _ : 0 < data.limit then do
    let chunkSize := min chunkSizeBytes data.limit
    let slice ← readBytes data.src data.pos chunkSize
    let chunkCount' ← checkedAdd 32 chunkCount 1
    digestSection digester ⟨data.src, data.pos + chunkSize, data.limit - chunkSize⟩
      (digestsOfChunks ++ digester.digest slice chunkHeaderMid (UInt32.ofNat chunkSize))
      chunkCount'
  else ok (digestsOfChunks, chunkCount)
termination_by data.limit
decreasing_by
  have hpos : 0 < chunkSizeBytes := by decide
  omega

/-- `ApkSections::compute_digest`. -/
def ApkSections.computeDigest (algorithms : DigestAlgorithms) (s : ApkSections)
    (signatureAlgorithmId : UInt32) : Outcome ApkError (List UInt8) := do
  let digester ← Digester.new algorithms signatureAlgorithmId
  let (digestsOfChunks, chunkCount) ←
    [ApkSections.zipEntries, ApkSections.centralDirectory, ApkSections.eocdForVerification].foldlM
      (fun (digestsOfChunks, chunkCount) sectionOf ↦ do
        let data ← sectionOf s
        digestSection digester data digestsOfChunks chunkCount)
      ([], 0)
  pure (digester.digest digestsOfChunks chunkHeaderTop (UInt32.ofNat chunkCount))

/-! ## The content digest -/

/-- The digest of a chunk: its hash behind `0xa5` and its length. -/
def chunkDigest (H : List UInt8 → List UInt8) (c : List UInt8) : List UInt8 :=
  H ([0xa5] ++ leBytes 4 c.length ++ c)

/-- The chunked content digest of APK Signature Scheme v2/v3 with the hash `H`: every section cut
into chunks of 1 MiB, the last of each shorter, and the digests of the chunks, in order, hashed
behind `0x5a` and their count. -/
def chunkedContentDigest (H : List UInt8 → List UInt8) (sections : List (List UInt8)) :
    List UInt8 :=
  let cs := sections.flatMap (chunks chunkSizeBytes)
  H ([0x5a] ++ leBytes 4 cs.length ++ cs.flatMap (chunkDigest H))

/-- The sections the content digest covers: the ZIP entries before the APK Signing Block, the
Central Directory, and the EOCD with the `u32` at its byte 16, the Central Directory's offset,
replaced by the Signing Block's. -/
def ApkSections.contentSections (s : ApkSections) : List (List UInt8) :=
  [s.inner.take s.signingBlockOffset.toNat,
    bytesAt s.inner s.centralDirectoryOffset.toNat s.centralDirectorySize.toNat,
    overwrite (bytesAt s.inner s.eocdOffset.toNat s.eocdSize.toNat) 16
      (leBytes 4 s.signingBlockOffset.toNat)]

/-! ## Each section's loop reads the section's chunks -/

theorem readBytes_of_le {file : List UInt8} {offset size : Nat}
    (h : offset + size ≤ file.length) : readBytes file offset size = ok (bytesAt file offset size) :=
  if_pos h

theorem chunkSizeBytes_pos : 0 < chunkSizeBytes := by decide

/-- A `u32` section takes at most 4096 chunks. -/
theorem ceilDiv_chunkSizeBytes_le (x : UInt32) : x.toNat ⌈/⌉ chunkSizeBytes ≤ 4096 := by
  have hx := x.toNat_lt
  have hsize : chunkSizeBytes * 4096 = 2 ^ 32 := by decide
  rw [ceilDiv_le_iff_le_mul chunkSizeBytes_pos, hsize]
  exact Nat.le_of_lt hx

/-- The digest `compute_digest` takes of a chunk read whole is its `chunkDigest`. -/
theorem digest_chunk (digester : Digester) {c : List UInt8} (hc : c.length ≤ chunkSizeBytes) :
    digester.digest c chunkHeaderMid (UInt32.ofNat c.length) = chunkDigest digester.algorithm c := by
  have hsize : chunkSizeBytes < UInt32.size := by decide
  rw [Digester.digest, chunkDigest, UInt32.toNat_ofNat_of_lt' (by omega)]
  rfl

/-- The loop over a section read in full digests the section's chunks in order and counts them,
while the count fits a `u32`. -/
theorem digestSection_eq (digester : Digester) (src : List UInt8) :
    ∀ (limit pos : Nat) (digestsOfChunks : List UInt8) (chunkCount : Nat),
      pos + limit ≤ src.length → chunkCount + limit ⌈/⌉ chunkSizeBytes < 2 ^ 32 →
      digestSection digester ⟨src, pos, limit⟩ digestsOfChunks chunkCount =
        ok (digestsOfChunks ++
            (chunks chunkSizeBytes (bytesAt src pos limit)).flatMap (chunkDigest digester.algorithm),
          chunkCount + limit ⌈/⌉ chunkSizeBytes) := by
  intro limit
  induction limit using Nat.strong_induction_on with
  | _ limit ih =>
  intro pos digestsOfChunks chunkCount hread hcount
  have hC := chunkSizeBytes_pos
  rcases Nat.eq_zero_or_pos limit with rfl | hlimit
  · rw [digestSection, dif_neg (Nat.lt_irrefl 0)]
    simp [bytesAt, chunks]
  · have hsteps := ceilDiv_eq_succ hC hlimit
    have hsub : limit - min chunkSizeBytes limit = limit - chunkSizeBytes := by omega
    have hchunk : min chunkSizeBytes limit ≤ chunkSizeBytes := Nat.min_le_left _ _
    have hslice : (bytesAt src pos (min chunkSizeBytes limit)).length = min chunkSizeBytes limit :=
      length_bytesAt_of_le (by omega)
    have hrest : bytesAt src (pos + min chunkSizeBytes limit) (limit - min chunkSizeBytes limit) =
        bytesAt src (pos + chunkSizeBytes) (limit - chunkSizeBytes) := by
      by_cases hle : chunkSizeBytes ≤ limit
      · rw [Nat.min_eq_left hle]
      · have hlt : limit ≤ chunkSizeBytes := Nat.le_of_lt (Nat.lt_of_not_le hle)
        rw [Nat.min_eq_right hlt, Nat.sub_self, Nat.sub_eq_zero_of_le hlt, bytesAt, bytesAt,
          List.take_zero, List.take_zero]
    have hchunks : chunks chunkSizeBytes (bytesAt src pos limit) =
        bytesAt src pos (min chunkSizeBytes limit) ::
          chunks chunkSizeBytes
            (bytesAt src (pos + min chunkSizeBytes limit) (limit - min chunkSizeBytes limit)) := by
      have hne : bytesAt src pos limit ≠ [] := by
        rw [← List.length_pos_iff, length_bytesAt_of_le hread]
        exact hlimit
      rw [chunks_eq_cons hC hne, take_bytesAt, drop_bytesAt, hrest]
    have hnext := ih (limit - min chunkSizeBytes limit) (by omega) (pos + min chunkSizeBytes limit)
      (digestsOfChunks ++ chunkDigest digester.algorithm (bytesAt src pos (min chunkSizeBytes limit)))
      (chunkCount + 1) (by omega) (by rw [hsub]; omega)
    have hdigest : digester.digest (bytesAt src pos (min chunkSizeBytes limit)) chunkHeaderMid
        (UInt32.ofNat (min chunkSizeBytes limit)) =
          chunkDigest digester.algorithm (bytesAt src pos (min chunkSizeBytes limit)) := by
      have h := digest_chunk digester (c := bytesAt src pos (min chunkSizeBytes limit))
        (by rw [hslice]; exact hchunk)
      rwa [hslice] at h
    rw [digestSection, dif_pos hlimit]
    dsimp only
    rw [readBytes_of_le (by omega), ok_bind, checkedAdd_of_lt (by omega), ok_bind, hdigest,
      hnext, hchunks, List.flatMap_cons, List.append_assoc, hsub]
    congr 2
    omega

/-! ## `compute_digest` is the chunked content digest -/

/-- The EOCD section is the EOCD with the Signing Block's offset written over the Central
Directory's, read from its start. -/
theorem eocdForVerification_eq (s : ApkSections)
    (heocd : s.eocdOffset.toNat + s.eocdSize.toNat ≤ s.inner.length) :
    s.eocdForVerification = ok ⟨overwrite (bytesAt s.inner s.eocdOffset.toNat s.eocdSize.toNat) 16
      (leBytes 4 s.signingBlockOffset.toNat), 0, s.eocdSize.toNat⟩ := by
  have hlen := length_bytesAt_of_le heocd
  have hmin := s.eocdMinSize_le
  rw [ApkSections.eocdForVerification, readBytes_of_le heocd, ok_bind, setCentralDirectoryOffset,
    if_neg (by omega), ok_bind]
  rfl

/-- For every APK whose three sections lie inside the file, `compute_digest` with a signature
algorithm is the chunked content digest of the sections under the algorithm's hash, and fails as
`Digester::new` does when the algorithm has no chunked digest. -/
theorem computeDigest_eq_chunkedContentDigest (algorithms : DigestAlgorithms) (s : ApkSections)
    (signatureAlgorithmId : UInt32)
    (hentries : s.signingBlockOffset.toNat ≤ s.inner.length)
    (hcd : s.centralDirectoryOffset.toNat + s.centralDirectorySize.toNat ≤ s.inner.length)
    (heocd : s.eocdOffset.toNat + s.eocdSize.toNat ≤ s.inner.length) :
    s.computeDigest algorithms signatureAlgorithmId =
      (fun digester ↦ chunkedContentDigest digester.algorithm s.contentSections) <$>
        Digester.new algorithms signatureAlgorithmId := by
  have h₁ := ceilDiv_chunkSizeBytes_le s.signingBlockOffset
  have h₂ := ceilDiv_chunkSizeBytes_le s.centralDirectorySize
  have h₃ := ceilDiv_chunkSizeBytes_le s.eocdSize
  have hsize : 3 * 4096 < UInt32.size := by decide
  have hentries' : 0 + s.signingBlockOffset.toNat ≤ s.inner.length := by omega
  have heocdLen : (overwrite (bytesAt s.inner s.eocdOffset.toNat s.eocdSize.toNat) 16
      (leBytes 4 s.signingBlockOffset.toNat)).length = s.eocdSize.toNat := by
    rw [length_overwrite, length_bytesAt_of_le heocd]
  rw [map_eq, ApkSections.computeDigest]
  congr 1
  funext digester
  simp only [List.foldlM_cons, List.foldlM_nil, ApkSections.zipEntries,
    ApkSections.centralDirectory, scopedRead, eocdForVerification_eq s heocd, ok_bind]
  rw [digestSection_eq digester _ _ _ _ _ hentries' (by omega), ok_bind,
    digestSection_eq digester _ _ _ _ _ hcd (by omega), ok_bind,
    digestSection_eq digester _ _ _ _ _ (by omega) (by omega), ok_bind, pure_eq, ok_bind,
    bytesAt_zero_of_length heocdLen]
  have hzip : bytesAt s.inner 0 s.signingBlockOffset.toNat = s.inner.take s.signingBlockOffset.toNat :=
    by rw [bytesAt, List.drop_zero]
  have hcount : (s.contentSections.flatMap (chunks chunkSizeBytes)).length =
      0 + s.signingBlockOffset.toNat ⌈/⌉ chunkSizeBytes +
        s.centralDirectorySize.toNat ⌈/⌉ chunkSizeBytes + s.eocdSize.toNat ⌈/⌉ chunkSizeBytes := by
    simp only [ApkSections.contentSections, List.flatMap_cons, List.flatMap_nil, List.append_nil,
      List.length_append, length_chunks, List.length_take, Nat.min_eq_left hentries,
      length_bytesAt_of_le hcd, heocdLen]
    omega
  have hdigests : (s.contentSections.flatMap (chunks chunkSizeBytes)).flatMap
      (chunkDigest digester.algorithm) =
        [] ++ (chunks chunkSizeBytes (bytesAt s.inner 0 s.signingBlockOffset.toNat)).flatMap
            (chunkDigest digester.algorithm) ++
          (chunks chunkSizeBytes (bytesAt s.inner s.centralDirectoryOffset.toNat
            s.centralDirectorySize.toNat)).flatMap (chunkDigest digester.algorithm) ++
          (chunks chunkSizeBytes (overwrite (bytesAt s.inner s.eocdOffset.toNat s.eocdSize.toNat) 16
            (leBytes 4 s.signingBlockOffset.toNat))).flatMap (chunkDigest digester.algorithm) := by
    rw [ApkSections.contentSections, List.flatMap_cons, List.flatMap_cons, List.flatMap_cons,
      List.flatMap_nil, List.append_nil, List.flatMap_append, List.flatMap_append, hzip,
      List.nil_append, List.append_assoc]
  rw [chunkedContentDigest, hcount, hdigests, Digester.digest,
    UInt32.toNat_ofNat_of_lt' (by omega)]
  rfl

/-- An APK of 5000 bytes whose entries cross a chunk boundary, followed by a signing block, a
central directory and a 22-byte EOCD. -/
theorem computeDigest_sections :
    let s : ApkSections := ⟨(List.range 5000).map UInt8.ofNat, 4200, 4500, 478, 4978, 22, by decide⟩
    s.signingBlockOffset.toNat ≤ s.inner.length ∧
      s.centralDirectoryOffset.toNat + s.centralDirectorySize.toNat ≤ s.inner.length ∧
      s.eocdOffset.toNat + s.eocdSize.toNat ≤ s.inner.length ∧
      s.computeDigest ⟨id, id⟩ signatureRsaPssWithSha256 =
        (fun digester ↦ chunkedContentDigest digester.algorithm s.contentSections) <$>
          Digester.new ⟨id, id⟩ signatureRsaPssWithSha256 := by
  intro s
  have hlen : s.inner.length = 5000 := by simp [s]
  have hentries : s.signingBlockOffset.toNat ≤ s.inner.length := by
    rw [hlen]
    decide
  have hcd : s.centralDirectoryOffset.toNat + s.centralDirectorySize.toNat ≤ s.inner.length := by
    rw [hlen]
    decide
  have heocd : s.eocdOffset.toNat + s.eocdSize.toNat ≤ s.inner.length := by
    rw [hlen]
    decide
  exact ⟨hentries, hcd, heocd,
    computeDigest_eq_chunkedContentDigest ⟨id, id⟩ s _ hentries hcd heocd⟩

end Virtualization.Apkverify
