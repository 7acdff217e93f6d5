import Virtualization.Apkverify.BytesExt

/-!
# `apkverify::sigutil`: finding the APK Signing Block and a scheme's block in it

The APK Signing Block sits right before the ZIP Central Directory.  It starts with its size (a
`u64`, not counting itself) and ends with the same size and a 16-byte magic:

  `size | ID-value pairs | size | magic`

`find_signing_block` reads the size in the footer, 24 bytes before the Central Directory, checks
the magic, steps back over the block and checks the size in the header.  `find_signature_scheme_block`
then walks the pairs, each a `u64` length followed by that many bytes, of which the first four are
the ID, and returns the value of the first pair with the ID asked for.

The file is a byte string read by `seek` and `read_exact`; reading past its end is an error.  The
`u32` sum `size_in_footer + 8` is checked (`checkedAdd 32`), and so is the `usize` difference
`buf.len() - 24`; `Bytes::slice`, `split_to` and `get_u32_le` panic when out of range.
-/

namespace Virtualization.Apkverify

open Outcome

/-- `APK_SIG_BLOCK_MIN_SIZE`. -/
def apkSigBlockMinSize : Nat := 32

/-- `APK_SIG_BLOCK_MAGIC`: "APK Sig Block 42", as a little-endian `u128`. -/
def apkSigBlockMagic : Nat := 0x3234206b636f6c4220676953204b5041

/-- `seek(SeekFrom::Start(pos))` then `read_exact` of `k` little-endian bytes. -/
def readLe (file : List UInt8) (pos k : Nat) : Outcome ApkError Nat :=
  if pos + k ≤ file.length then ok (ofLeBytes ((file.drop pos).take k)) else err .unexpectedEof

/-- `find_signing_block`: the offset and size of the APK Signing Block before the Central
Directory at `centralDirectoryOffset`, the size counting the header's eight bytes. -/
def findSigningBlock (file : List UInt8) (centralDirectoryOffset : Nat) :
    Outcome ApkError (Nat × Nat) :=
  if centralDirectoryOffset < apkSigBlockMinSize then err (.apkTooSmall centralDirectoryOffset)
  else do
    -- `read_u64::<LittleEndian>()? as u32`
    let sizeInFooter := (← readLe file (centralDirectoryOffset - 24) 8) % 2 ^ 32
    if (← readLe file (centralDirectoryOffset - 16) 16) ≠ apkSigBlockMagic then err .noSigningBlock
    else
      let totalSize ← checkedAdd 32 sizeInFooter 8
      if centralDirectoryOffset < totalSize then err (.sizeOutOfRange sizeInFooter)
      else
        let signingBlockOffset := centralDirectoryOffset - totalSize
        let sizeInHeader := (← readLe file signingBlockOffset 8) % 2 ^ 32
        if sizeInHeader ≠ sizeInFooter then err (.sizeMismatch sizeInHeader sizeInFooter)
        else pure (signingBlockOffset, totalSize)

/-- The loop of `find_signature_scheme_block` over the ID-value pairs left, having read
`entryCount` of them. -/
def findPair (blockId : UInt32) (entryCount : Nat) (pairs : List UInt8) :
    Outcome ApkError (List UInt8) :=
  if pairs = [] then err (.noSchemeBlock blockId)
  else
    let entryCount := entryCount + 1
    if pairs.length < 8 then err (.insufficientData entryCount)
    else
      let length := ofLeBytes (pairs.take 8)
      let rest := pairs.drop 8
      -- `split_to(length)` panics past the end
      if rest.length < length then panic
      else
        let pair := rest.take length
        -- `get_u32_le` panics on fewer than four bytes
        if pair.length < 4 then panic
        else if UInt32.ofNat (ofLeBytes (pair.take 4)) = blockId then ok (pair.drop 4)
        else findPair blockId entryCount (rest.drop length)
termination_by pairs.length
decreasing_by
  simp only [List.length_drop]
  omega

/-- `find_signature_scheme_block`: the value of the first pair with ID `blockId`, between the
block's eight-byte header and its 24-byte footer. -/
def findSignatureSchemeBlock (buf : List UInt8) (blockId : UInt32) :
    Outcome ApkError (List UInt8) := do
  let pairsEnd ← checkedSub buf.length 24
  let pairs ← slice buf 8 pairsEnd
  findPair blockId 0 pairs

/-- `ApkSections::bytes`: `read_exact` of `size` bytes at `offset`. -/
def readBytes (file : List UInt8) (offset size : Nat) : Outcome ApkError (List UInt8) :=
  if offset + size ≤ file.length then ok ((file.drop offset).take size) else err .unexpectedEof

/-- `ApkSections::new` then `find_signature`, from the Central Directory's offset. -/
def findSignature (file : List UInt8) (centralDirectoryOffset : Nat) (blockId : UInt32) :
    Outcome ApkError (List UInt8) := do
  let (signingBlockOffset, signingBlockSize) ← findSigningBlock file centralDirectoryOffset
  let signingBlock ← readBytes file signingBlockOffset signingBlockSize
  findSignatureSchemeBlock signingBlock blockId

/-! ## What the locator returns -/

/-- A block shorter than the minimum panics in `find_signature_scheme_block`: the pairs would end
before they start, or the footer before the block. -/
theorem findSignatureSchemeBlock_of_lt {buf : List UInt8} (hlen : buf.length < apkSigBlockMinSize)
    (blockId : UInt32) : findSignatureSchemeBlock buf blockId = panic := by
  unfold findSignatureSchemeBlock
  by_cases hfooter : 24 ≤ buf.length
  · have hslice : (slice buf 8 (buf.length - 24) : Outcome ApkError (List UInt8)) = panic :=
      slice_of_lt (by simp only [apkSigBlockMinSize] at hlen; omega)
    rw [checkedSub_of_le hfooter, ok_bind, hslice, panic_bind]
  · rw [checkedSub, if_neg hfooter, panic_bind]

/-- A block `find_signing_block` returns ends at the Central Directory, which lies in the file:
its magic was read from the 16 bytes before it. -/
theorem findSigningBlock_eq_ok {file : List UInt8} {centralDirectoryOffset offset size : Nat}
    (h : findSigningBlock file centralDirectoryOffset = ok (offset, size)) :
    offset + size = centralDirectoryOffset ∧ centralDirectoryOffset ≤ file.length := by
  unfold findSigningBlock at h
  split_ifs at h with hsmall
  obtain ⟨footer, -, h⟩ := bind_eq_ok.mp h
  obtain ⟨magic, hmagic, h⟩ := bind_eq_ok.mp h
  have hin : centralDirectoryOffset - 16 + 16 ≤ file.length := by
    unfold readLe at hmagic
    split_ifs at hmagic with hle
    exact hle
  split_ifs at h with hwrong
  obtain ⟨totalSize, -, h⟩ := bind_eq_ok.mp h
  split_ifs at h with hrange
  obtain ⟨header, -, h⟩ := bind_eq_ok.mp h
  dsimp only at h
  split_ifs at h with hmismatch
  obtain ⟨rfl, rfl⟩ := Prod.mk.inj (ok.inj h)
  simp only [apkSigBlockMinSize] at hsmall
  omega

/-- Once `find_signing_block` has found the block, `find_signature` reads it, which cannot fail,
and looks the scheme's block up in it. -/
theorem findSignature_of_found {file : List UInt8} {centralDirectoryOffset offset size : Nat}
    (hfind : findSigningBlock file centralDirectoryOffset = ok (offset, size)) (blockId : UInt32) :
    findSignature file centralDirectoryOffset blockId =
      findSignatureSchemeBlock ((file.drop offset).take size) blockId := by
  obtain ⟨hend, hin⟩ := findSigningBlock_eq_ok hfind
  have hread : readBytes file offset size = ok ((file.drop offset).take size) := if_pos (by omega)
  unfold findSignature
  rw [hfind, ok_bind]
  dsimp only
  rw [hread, ok_bind]

/-- Whenever `find_signing_block` returns a block shorter than the minimum, `find_signature` reads
it and panics taking the scheme's block from it. -/
theorem findSignature_of_short {file : List UInt8} {centralDirectoryOffset offset size : Nat}
    (hfind : findSigningBlock file centralDirectoryOffset = ok (offset, size))
    (hshort : size < apkSigBlockMinSize) (blockId : UInt32) :
    findSignature file centralDirectoryOffset blockId = panic := by
  have hlen : ((file.drop offset).take size).length < apkSigBlockMinSize := by
    rw [List.length_take]
    omega
  rw [findSignature_of_found hfind, findSignatureSchemeBlock_of_lt hlen]

/-- A footer size of 16 makes the header the footer's own size field: the block is found with size
24, below the minimum, and reading the scheme's block from it panics. -/
theorem findSignature_footer_sixteen :
    findSigningBlock (List.replicate 8 0 ++ leBytes 8 16 ++ leBytes 16 apkSigBlockMagic) 32 =
      ok (8, 24) ∧
    ∀ blockId, findSignature (List.replicate 8 0 ++ leBytes 8 16 ++ leBytes 16 apkSigBlockMagic) 32
      blockId = panic := by
  have hfind : findSigningBlock (List.replicate 8 0 ++ leBytes 8 16 ++ leBytes 16 apkSigBlockMagic)
      32 = ok (8, 24) := by decide
  exact ⟨hfind, findSignature_of_short hfind (by decide)⟩

end Virtualization.Apkverify
