import Virtualization.Lib.Outcome
import Virtualization.Lib.Bytes

/-!
# `apkverify::bytes_ext`: reading records from the front of a buffer

`ReadFromBytes` reads a value from the front of a `bytes::Bytes`, which it advances.  The reader of
a type is its instance here, taking the buffer and returning the value with the rest of the buffer.
A `u32` is read by `get_u32_le`, which panics when fewer than four bytes are left; a `Vec<T>` reads
`T`s until the buffer is empty; a `LengthPrefixed<T>` cuts a slice of the length its `u32` prefix
gives and reads a `T` from it; `Bytes` is a copy of what is left, and does not advance the buffer.

`Vec<T>`'s loop ends because every `T` it is used with takes at least one byte when it returns
(`ReadsSome`): the elements are always `LengthPrefixed`, which takes its prefix.  `Bytes`, which
takes nothing, is never an element.
-/

namespace Virtualization.Apkverify

open Outcome

/-- The `anyhow::Error`s of reading an APK's signatures, by the `bail!` that raises them. -/
inductive ApkError where
  /-- "Remaining buffer too short to contain length of length-prefixed field. Remaining: {}" -/
  | remainingTooShort (remaining : Nat)
  /-- "length-prefixed field longer than remaining buffer. Field length: {}, remaining: {}" -/
  | fieldTooLong (len remaining : Nat)
  /-- The `io::Error` of `read_exact` past the end of the file. -/
  | unexpectedEof
  /-- "APK too small for APK Signing Block. ZIP Central Directory offset: {}" -/
  | apkTooSmall (centralDirectoryOffset : Nat)
  /-- "No APK Signing Block before ZIP Central Directory" -/
  | noSigningBlock
  /-- "APK Signing Block size out of range: {}" -/
  | sizeOutOfRange (sizeInFooter : Nat)
  /-- "APK Signing Block sizes in header and footer do not match: {} vs {}" -/
  | sizeMismatch (sizeInHeader sizeInFooter : Nat)
  /-- "Insufficient data to read size of APK Signing Block entry #{}" -/
  | insufficientData (entryCount : Nat)
  /-- "No APK Signature Scheme block in APK Signing Block with ID: {}" -/
  | noSchemeBlock (blockId : UInt32)
  /-- "APK Signature Scheme V3 only supports one signer: {} signers found." -/
  | notOneSigner (count : Nat)
  /-- "Unknown signature algorithm: {}" -/
  | unknownSignatureAlgorithm (algorithmId : UInt32)
  /-- "CONTENT_DIGEST_VERITY_CHUNKED_SHA256: not implemented" -/
  | verityNotImplemented
  /-- "Unknown digest algorithm: {}" -/
  | unknownDigestAlgorithm (digestAlgorithmId : UInt32)
  /-- "Invalid EOCD size: {}" -/
  | invalidEocdSize (size : Nat)
deriving DecidableEq, Repr

/-- `ReadFromBytes`: a value read from the front of the buffer, with the rest of the buffer. -/
class ReadFromBytes (α : Type) where
  readFromBytes : List UInt8 → Outcome ApkError (α × List UInt8)

export ReadFromBytes (readFromBytes)

/-- A reader that takes at least one byte whenever it returns. -/
class ReadsSome (α : Type) [ReadFromBytes α] : Prop where
  length_lt : ∀ {buf : List UInt8} {v : α} {rest : List UInt8},
    readFromBytes buf = ok (v, rest) → rest.length < buf.length

/-- `Buf::get_u32_le`: it panics when fewer than four bytes are left. -/
def getU32Le (buf : List UInt8) : Outcome ApkError (UInt32 × List UInt8) :=
  if buf.length < 4 then panic else ok (UInt32.ofNat (ofLeBytes (buf.take 4)), buf.drop 4)

/-- `ReadFromBytes for u32`. -/
instance : ReadFromBytes UInt32 := ⟨getU32Le⟩

/-- `bytes::Bytes`. -/
structure Bytes where
  data : List UInt8
deriving DecidableEq, Repr

/-- `ReadFromBytes for Bytes`: `buf.slice(..)`, a copy of what is left; the buffer stays. -/
instance : ReadFromBytes Bytes := ⟨fun buf ↦ ok (⟨buf⟩, buf)⟩

/-- `LengthPrefixed<T>`. -/
structure LengthPrefixed (α : Type) where
  inner : α
deriving DecidableEq, Repr

/-- `read_length_prefixed_slice`: the slice of the length in the `u32` prefix, and the rest. -/
def readLengthPrefixedSlice (buf : List UInt8) : Outcome ApkError (List UInt8 × List UInt8) :=
  if buf.length < 4 then err (.remainingTooShort buf.length)
  else
    let len := ofLeBytes (buf.take 4)
    let buf := buf.drop 4
    if buf.length < len then err (.fieldTooLong len buf.length)
    else ok (buf.take len, buf.drop len)

/-- `ReadFromBytes for LengthPrefixed<T>`: a `T` from the slice; what the `T` leaves of the slice
is dropped. -/
instance {α : Type} [ReadFromBytes α] : ReadFromBytes (LengthPrefixed α) where
  readFromBytes buf := do
    let (inner, buf) ← readLengthPrefixedSlice buf
    let (v, _) ← (readFromBytes inner : Outcome ApkError (α × List UInt8))
    pure (⟨v⟩, buf)

/-- `ReadFromBytes for Vec<T>`: `T`s until the buffer is empty. -/
def readVec {α : Type} [ReadFromBytes α] [ReadsSome α] (buf : List UInt8) :
    Outcome ApkError (List α × List UInt8) :=
  if buf = [] then ok ([], buf)
  else
    match h : (readFromBytes buf : Outcome ApkError (α × List UInt8)) with
    | .ok (v, rest) =>
      have : rest.length < buf.length := ReadsSome.length_lt h
      readVec rest >>= fun (vs, rest) ↦ ok (v :: vs, rest)
    | .err e => err e
    | .panic => panic
termination_by buf.length

instance {α : Type} [ReadFromBytes α] [ReadsSome α] : ReadFromBytes (List α) := ⟨readVec⟩

section Readers

variable {α : Type} [ReadFromBytes α]

theorem readFromBytes_lengthPrefixed (buf : List UInt8) :
    (readFromBytes buf : Outcome ApkError (LengthPrefixed α × List UInt8)) =
      readLengthPrefixedSlice buf >>= fun (inner, rest) ↦
        (readFromBytes inner : Outcome ApkError (α × List UInt8)) >>= fun (v, _) ↦ ok (⟨v⟩, rest) :=
  rfl

/-- A length-prefixed value is the value read from its slice; what the value leaves of the slice
is dropped. -/
theorem readFromBytes_lengthPrefixed_of_ok {buf inner rest tail : List UInt8} {v : α}
    (hslice : readLengthPrefixedSlice buf = ok (inner, rest))
    (hv : (readFromBytes inner : Outcome ApkError (α × List UInt8)) = ok (v, tail)) :
    (readFromBytes buf : Outcome ApkError (LengthPrefixed α × List UInt8)) = ok (⟨v⟩, rest) := by
  rw [readFromBytes_lengthPrefixed, hslice, ok_bind]
  dsimp only
  rw [hv, ok_bind]

variable [ReadsSome α]

theorem readFromBytes_list (buf : List UInt8) :
    (readFromBytes buf : Outcome ApkError (List α × List UInt8)) = readVec buf :=
  rfl

theorem readVec_nil : (readVec [] : Outcome ApkError (List α × List UInt8)) = ok ([], []) := by
  rw [readVec, if_pos rfl]

/-- One turn of the loop of `Vec<T>`: an element, then the rest. -/
theorem readVec_of_ne_nil {buf : List UInt8} (hne : buf ≠ []) :
    (readVec buf : Outcome ApkError (List α × List UInt8)) =
      readFromBytes buf >>= fun (v, rest) ↦ readVec rest >>= fun (vs, rest) ↦ ok (v :: vs, rest) := by
  rw [readVec, if_neg hne]
  split <;> rename_i heq <;> (conv_rhs => rw [heq]) <;> rfl

/-- A list of one element, which takes the whole buffer. -/
theorem readVec_of_single {buf : List UInt8} {v : α} (hne : buf ≠ [])
    (hv : (readFromBytes buf : Outcome ApkError (α × List UInt8)) = ok (v, [])) :
    (readVec buf : Outcome ApkError (List α × List UInt8)) = ok ([v], []) := by
  rw [readVec_of_ne_nil hne, hv, ok_bind]
  dsimp only
  rw [readVec_nil, ok_bind]

end Readers

/-! ## The slices of `read_length_prefixed_slice` -/

/-- A length-prefixed slice lies in the buffer after its prefix, and the rest follows it. -/
theorem readLengthPrefixedSlice_eq_ok {buf inner rest : List UInt8}
    (h : readLengthPrefixedSlice buf = ok (inner, rest)) :
    4 ≤ buf.length ∧ inner.length = ofLeBytes (buf.take 4) ∧ buf = buf.take 4 ++ inner ++ rest := by
  unfold readLengthPrefixedSlice at h
  dsimp only at h
  split_ifs at h with hshort hlong
  cases h
  refine ⟨Nat.le_of_not_lt hshort, ?_, ?_⟩
  · rw [List.length_take]
    omega
  · rw [List.append_assoc, List.take_append_drop, List.take_append_drop]

/-- A length-prefixed record takes its prefix and its slice. -/
instance {α : Type} [ReadFromBytes α] : ReadsSome (LengthPrefixed α) where
  length_lt {buf v rest} h := by
    obtain ⟨⟨inner, rest'⟩, hslice, h⟩ := bind_eq_ok.mp h
    obtain ⟨⟨w, _⟩, -, h⟩ := bind_eq_ok.mp h
    cases h
    obtain ⟨hlen, -, hbuf⟩ := readLengthPrefixedSlice_eq_ok hslice
    have hsplit : buf.length = 4 + inner.length + rest.length := by
      conv_lhs => rw [hbuf]
      rw [List.length_append, List.length_append, List.length_take, Nat.min_eq_left hlen]
    omega

end Virtualization.Apkverify
