import Virtualization.Lib.BlockDevice
import Virtualization.Lib.Bytes
import Virtualization.Lib.Chunks

/-!
# `idsig::hashtree`: the Merkle tree of an APK Signature Scheme v4 signature

`HashTree::from` builds the fs-verity Merkle tree of an input it reads from a stream, and the
root hash.  `calc_hash_levels` computes the size of each level bottom up, each rounded to whole
blocks, and lays the levels out top down; `generate_hash_tree` hashes the zero-padded input into
level 0 and each level into the one above, writing the hashes through a `Cursor` over the level's
range with `write_all(..).unwrap()`.

`usize` arithmetic panics on overflow, and so do slicing out of range, `chunks(0)` and a `Vec`
that would pass `isize::MAX` bytes.  The loop of `calc_hash_levels` stops only at a level that
fits in a block; unless a block holds two digests the level above a level may be as large as the
level itself, and the loop then pushes sizes until its `Vec` cannot grow.
-/

namespace Virtualization.Idsig

open Outcome

variable {ε : Type}

/-- `ring::digest::Algorithm`: the length of a digest, the block length of the compression
function, and the digest of a message. -/
structure Algorithm where
  outputLen : Nat
  blockLen : Nat
  digest : List UInt8 → List UInt8
  length_digest : ∀ m, (digest m).length = outputLen

/-- `round_to_multiple`: `(n + unit - 1) & !(unit - 1)` on `usize`. -/
def roundToMultiple (n unit : Nat) : Outcome ε Nat := do
  let t ← checkedSub (← checkedAdd 64 n unit) 1
  let mask ← checkedSub unit 1
  pure (t &&& bitNot 64 mask)

/-- For a power of two the trick rounds `n` up to a multiple of it. -/
theorem roundToMultiple_eq {n k : Nat} (hk : k < 64) (h : n + 2 ^ k < 2 ^ 64) :
    (roundToMultiple n (2 ^ k) : Outcome ε Nat) = ok (n ⌈/⌉ 2 ^ k * 2 ^ k) := by
  have hpos : 1 ≤ 2 ^ k := Nat.one_le_two_pow
  have hround : (n + 2 ^ k - 1) &&& bitNot 64 (2 ^ k - 1) = (n + 2 ^ k - 1) / 2 ^ k * 2 ^ k :=
    and_bitNot_two_pow_sub_one (by omega) (Nat.le_of_lt hk)
  simp only [roundToMultiple, checkedAdd_of_lt h, ok_bind, checkedSub_of_le (by omega : 1 ≤ n + 2 ^ k),
    checkedSub_of_le hpos, hround, pure_eq, Nat.ceilDiv_eq_add_pred_div]

theorem roundToMultiple_of_le {n unit : Nat} (h : 2 ^ 64 ≤ n + unit) :
    (roundToMultiple n unit : Outcome ε Nat) = panic := by
  rw [roundToMultiple, checkedAdd_of_le h, panic_bind]

/-- `hash_one_block`: the digest of the salt, the input, and zeros up to `block_size`. -/
def hashOneBlock (input salt : List UInt8) (blockSize : Nat) (algorithm : Algorithm) :
    Outcome ε (List UInt8) := do
  let padSize ← checkedSub blockSize input.length
  let padding ← vecZeroed padSize
  pure (algorithm.digest (salt ++ input ++ padding))

/-- A block no longer than `block_size` is hashed zero-padded. -/
theorem hashOneBlock_of_le {input salt : List UInt8} {blockSize : Nat} (algorithm : Algorithm)
    (hle : input.length ≤ blockSize) (hmax : blockSize ≤ isizeMax) :
    (hashOneBlock input salt blockSize algorithm : Outcome ε (List UInt8)) =
      ok (algorithm.digest (salt ++ input.rightpad blockSize 0)) := by
  rw [hashOneBlock, checkedSub_of_le hle, ok_bind,
    vecZeroed_of_le (Nat.le_trans (Nat.sub_le _ _) hmax), ok_bind, pure_eq, List.append_assoc]
  rfl

/-- `zero_pad_salt`: a salt other than the empty one, zero-padded to a multiple of the block
length of the compression function. -/
def zeroPadSalt (salt : List UInt8) (algorithm : Algorithm) : Outcome ε (List UInt8) :=
  if salt.isEmpty then pure salt
  else do
    let paddedLen ← roundToMultiple salt.length algorithm.blockLen
    pure (resize salt paddedLen 0)

/-! ## `calc_hash_levels` -/

/-- The most entries a `Vec<usize>` grown by `push` holds on a 64-bit target: its capacity
doubles from 4, and `2 ^ 60` entries would take more than `isize::MAX` bytes, so the push onto
`2 ^ 59` entries panics with "capacity overflow". -/
def usizeVecCapacity : Nat := 2 ^ 59

/-- The most `Range<usize>`s that `collect` gathers into a `Vec`: `2 ^ 59` of them would take
more than `isize::MAX` bytes. -/
def rangeVecCapacity : Nat := 2 ^ 58

/-- The loop of `calc_hash_levels`: push the size of the hashes of the last level, rounded to
whole blocks, until a level fits in a block. -/
def levelSizesLoop (inputSize blockSize digestSize : Nat) (levelSizes : List Nat) :
    Outcome ε (List Nat) :=
  -- the input of this level: the last level, or the input itself
  let levelInput := levelSizes.getLast?.getD inputSize
  if levelInput ≤ blockSize then pure levelSizes
  else do
    let numBlocks ← checkedDiv (← checkedSub (← checkedAdd 64 levelInput blockSize) 1) blockSize
    let hashesSize ← roundToMultiple (← checkedMul 64 numBlocks digestSize) blockSize
    if _ : levelSizes.length < usizeVecCapacity then
      levelSizesLoop inputSize blockSize digestSize (levelSizes ++ [hashesSize])
    else panic
termination_by usizeVecCapacity - levelSizes.length
decreasing_by
  rw [List.length_append, List.length_singleton]
  omega

/-- The `scan` of `calc_hash_levels` over the sizes from the top level down: each range starts
where the one before ends. -/
def scanRanges : Nat → List Nat → Outcome ε (List (Nat × Nat))
  | _, [] => pure []
  | prevEnd, size :: sizes => do
    let stop ← checkedAdd 64 prevEnd size
    let rest ← scanRanges stop sizes
    pure ((prevEnd, stop) :: rest)

/-- `calc_hash_levels`: the range `(start, end)` of the tree holding each level, level 0 first;
the tree stores the top level first. -/
def calcHashLevels (inputSize blockSize digestSize : Nat) : Outcome ε (List (Nat × Nat)) := do
  let levelSizes ← levelSizesLoop inputSize blockSize digestSize []
  let ranges ← scanRanges 0 levelSizes.reverse
  if rangeVecCapacity < ranges.length then panic
  pure ranges.reverse

/-- Over at most one block there are no levels. -/
theorem calcHashLevels_of_le {inputSize blockSize digestSize : Nat} (h : inputSize ≤ blockSize) :
    (calcHashLevels inputSize blockSize digestSize : Outcome ε (List (Nat × Nat))) = ok [] := by
  rw [calcHashLevels, levelSizesLoop, List.getLast?_nil, Option.getD_none, if_pos h]
  rfl

/-- Over more than a block, `inputSize + blockSize` must not overflow. -/
theorem calcHashLevels_of_overflow {inputSize blockSize digestSize : Nat}
    (hlt : blockSize < inputSize) (hover : 2 ^ 64 ≤ inputSize + blockSize) :
    (calcHashLevels inputSize blockSize digestSize : Outcome ε (List (Nat × Nat))) = panic := by
  rw [calcHashLevels, levelSizesLoop, List.getLast?_nil, Option.getD_none,
    if_neg (Nat.not_le.mpr hlt), checkedAdd_of_le hover]
  rfl

/-! ## `generate_hash_tree` -/

/-- `read_exact` of `n` bytes from `first.chain(second)`: `first` is read to its end before
`second`; at the end of both it fails, and what it read is lost. -/
def chainReadExact (n : Nat) : Stateful (List UInt8 × List UInt8) IoError (List UInt8) :=
  Stateful.step fun (first, second) ↦
    if n ≤ first.length then (.ok (first.take n), (first.drop n, second))
    else if n ≤ first.length + second.length then
      (.ok (first ++ second.take (n - first.length)), ([], second.drop (n - first.length)))
    else (.error unexpectedEof, ([], []))

/-- A call on `input.chain(second)`: the input is left where the chain left it. -/
def withChain {α : Type} (second : List UInt8) (x : Stateful (List UInt8 × List UInt8) IoError α) :
    Stateful (List UInt8) IoError α := fun input ↦
  match x (input, second) with
  | .ok (r, (input', _)) => .ok (r, input')
  | .err e => e.elim
  | .panic => .panic

/-- `read_to_end`: what the reader has left. -/
def readToEnd : Stateful (List UInt8) IoError (List UInt8) := Stateful.step fun s ↦ (.ok s, [])

/-- A `Cursor` over the bytes `[pos, bound)` of the tree. -/
structure Cursor where
  pos : Nat
  bound : Nat

/-- `cursor.write_all(bytes).unwrap()`: a cursor over a slice writes what fits, and `write_all`
fails with `WriteZero` once the slice is full. -/
def writeAllUnwrap (tree : List UInt8) (cursor : Cursor) (bytes : List UInt8) :
    Outcome ε (List UInt8 × Cursor) :=
  if cursor.pos + bytes.length ≤ cursor.bound then
    ok (overwrite tree cursor.pos bytes, { cursor with pos := cursor.pos + bytes.length })
  else panic

theorem writeAllUnwrap_of_le {tree : List UInt8} {cursor : Cursor} {bytes : List UInt8}
    (h : cursor.pos + bytes.length ≤ cursor.bound) :
    (writeAllUnwrap tree cursor bytes : Outcome ε (List UInt8 × Cursor)) =
      ok (overwrite tree cursor.pos bytes, ⟨cursor.pos + bytes.length, cursor.bound⟩) := if_pos h

/-- `<[T]>::chunks`, which panics on a chunk size of zero. -/
def sliceChunks {α : Type} (l : List α) (chunkSize : Nat) : Outcome ε (List (List α)) :=
  if chunkSize = 0 then panic else ok (chunks chunkSize l)

theorem sliceChunks_of_pos {α : Type} (l : List α) {chunkSize : Nat} (h : 0 < chunkSize) :
    (sliceChunks l chunkSize : Outcome ε (List (List α))) = ok (chunks chunkSize l) :=
  if_neg (Nat.pos_iff_ne_zero.mp h)

/-- The `while` loop of level 0: each of `num_blocks` blocks of the padded input read, hashed
and written. -/
def hashInputBlocks (salt : List UInt8) (blockSize : Nat) (algorithm : Algorithm) :
    Nat → List UInt8 × Cursor → Stateful (List UInt8 × List UInt8) IoError (List UInt8 × Cursor)
  | 0, tc => pure tc
  | numBlocks + 1, (tree, level0) => do
    let aBlock ← chainReadExact blockSize
    let h ← Stateful.lift (hashOneBlock aBlock salt blockSize algorithm)
    let tc ← Stateful.lift (writeAllUnwrap tree level0 h)
    hashInputBlocks salt blockSize algorithm numBlocks tc

/-- The `for_each` of a level above: each block of the level below hashed and written. -/
def hashLevelBlocks (salt : List UInt8) (blockSize : Nat) (algorithm : Algorithm) :
    List (List UInt8) → List UInt8 × Cursor → Outcome ε (List UInt8 × Cursor)
  | [], tc => pure tc
  | data :: blocks, (tree, cur) => do
    let h ← hashOneBlock data salt blockSize algorithm
    let tc ← writeAllUnwrap tree cur h
    hashLevelBlocks salt blockSize algorithm blocks tc

/-- Level 0: the input, zero-padded to whole blocks, hashed into the range `cur`. -/
def hashLevel0 (inputSize : Nat) (salt : List UInt8) (blockSize : Nat) (algorithm : Algorithm)
    (cur : Nat × Nat) (tree : List UInt8) : Stateful (List UInt8) IoError (List UInt8) := do
  let padSize ← Stateful.lift
    (checkedSub (← Stateful.lift (roundToMultiple inputSize blockSize)) inputSize)
  let padding ← Stateful.lift (vecZeroed padSize)
  let _ ← Stateful.lift (slice tree cur.1 cur.2)
  let _ ← Stateful.lift (vecZeroed blockSize)
  let numBlocks ← Stateful.lift
    (do checkedDiv (← checkedSub (← checkedAdd 64 inputSize blockSize) 1) blockSize)
  let (tree, _) ← withChain padding
    (hashInputBlocks salt blockSize algorithm numBlocks (tree, ⟨cur.1, cur.2⟩))
  pure tree

/-- Level `n > 0`: the blocks of level `n - 1`, in the range `prev`, hashed into the range `cur`
before it, through the two halves of `hash_tree[cur.start..prev.end]` split at `prev.start`. -/
def hashLevel (salt : List UInt8) (blockSize : Nat) (algorithm : Algorithm) (prev cur : Nat × Nat)
    (tree : List UInt8) : Outcome ε (List UInt8) := do
  let curAndPrev ← slice tree cur.1 prev.2
  let mid ← checkedSub prev.1 cur.1
  -- `split_at_mut`
  if curAndPrev.length < mid then panic
  let blocks ← sliceChunks (curAndPrev.drop mid) blockSize
  let (tree, _) ← hashLevelBlocks salt blockSize algorithm blocks (tree, ⟨cur.1, cur.1 + mid⟩)
  pure tree

/-- The `for` loop of `generate_hash_tree` over the levels from the `n`-th on. -/
def hashLevels (inputSize : Nat) (salt : List UInt8) (blockSize : Nat) (algorithm : Algorithm)
    (levels : List (Nat × Nat)) :
    Nat → List (Nat × Nat) → List UInt8 → Stateful (List UInt8) IoError (List UInt8)
  | _, [], tree => pure tree
  | n, cur :: rest, tree => do
    let tree ← if n = 0 then hashLevel0 inputSize salt blockSize algorithm cur tree
      else Stateful.lift do
        let prev ← expect levels[n - 1]?
        hashLevel salt blockSize algorithm prev cur tree
    hashLevels inputSize salt blockSize algorithm levels (n + 1) rest tree

/-- `levels.iter().map(|r| r.len()).sum()`, which panics on overflow. -/
def treeSize (levels : List (Nat × Nat)) : Outcome ε Nat :=
  levels.foldlM (fun total r ↦ checkedAdd 64 total (r.2 - r.1)) 0

/-- `generate_hash_tree`: the levels hashed into one buffer, read from the input stream. -/
def generateHashTree (inputSize : Nat) (salt : List UInt8) (blockSize : Nat)
    (algorithm : Algorithm) : Stateful (List UInt8) IoError (List UInt8) := do
  let digestSize := algorithm.outputLen
  let levels ← Stateful.lift (calcHashLevels inputSize blockSize digestSize)
  let size ← Stateful.lift (treeSize levels)
  let hashTree ← Stateful.lift (vecZeroed size)
  hashLevels inputSize salt blockSize algorithm levels 0 levels hashTree

/-- `HashTree`: the tree and its root hash. -/
structure HashTree where
  tree : List UInt8
  rootHash : List UInt8

/-- `HashTree::from`: the root hash is the hash of the first block of the tree, or of the input
when there is no tree. -/
def HashTree.fromReader (inputSize : Nat) (salt : List UInt8) (blockSize : Nat)
    (algorithm : Algorithm) : Stateful (List UInt8) IoError HashTree := do
  let salt ← Stateful.lift (zeroPadSalt salt algorithm)
  let tree ← generateHashTree inputSize salt blockSize algorithm
  let rootHash ← if tree.isEmpty then do
      let data ← readToEnd
      Stateful.lift (hashOneBlock data salt blockSize algorithm)
    else Stateful.lift do
      let firstBlock ← slice tree 0 blockSize
      hashOneBlock firstBlock salt blockSize algorithm
  pure ⟨tree, rootHash⟩

end Virtualization.Idsig
