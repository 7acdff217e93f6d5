import Mathlib.Algebra.Group.Nat.Defs
import Mathlib.Algebra.Group.Int.Defs
import Mathlib.Data.List.Basic

/-!
# Integers as bytes and as bits

`FixedBytes n` is a byte array of fixed length, `[u8; n]`.
`leBytes k n` is the `k`-byte little-endian encoding of `n` (`to_le_bytes`, `write_u64::<LE>`,
`put_u32_le`) and `ofLeBytes` its decoding (`from_le_bytes`, `read_u64::<LE>`, `get_u32_le`).
`bitLength x` is the number of significant bits of `x`, so that a `w`-bit value has
`leadingZeros w x = w - bitLength x` leading zero bits.
-/

namespace Virtualization

/-- A byte array of fixed length, `[u8; n]`. -/
@[ext]
structure FixedBytes (n : Nat) where
  toList : List UInt8
  length_toList : toList.length = n
deriving DecidableEq

namespace FixedBytes

variable {n : Nat}

/-- `[0u8; n]`. -/
def zero (n : Nat) : FixedBytes n := ⟨List.replicate n 0, List.length_replicate⟩

/-- `buf[..l.len()].copy_from_slice(l)`: the array with its first bytes replaced by `l`, cut
to the array's length. -/
def setPrefix (buf : FixedBytes n) (l : List UInt8) : FixedBytes n :=
  ⟨l.take n ++ buf.toList.drop (l.take n).length, by
    rw [List.length_append, List.length_drop, buf.length_toList, List.length_take]
    omega⟩

theorem toList_injective : Function.Injective (toList : FixedBytes n → List UInt8) :=
  fun _ _ h ↦ FixedBytes.ext h

@[simp] theorem toList_zero : (zero n).toList = List.replicate n 0 := rfl

theorem toList_setPrefix (buf : FixedBytes n) (l : List UInt8) :
    (buf.setPrefix l).toList = l.take n ++ buf.toList.drop (l.take n).length := rfl

/-- A prefix written into the zero array leaves it zero-padded. -/
theorem toList_zero_setPrefix {l : List UInt8} (hl : l.length ≤ n) :
    ((zero n).setPrefix l).toList = l.rightpad n 0 := by
  rw [toList_setPrefix, List.take_of_length_le hl, toList_zero, List.drop_replicate,
    List.rightpad]

/-- An array whose bytes from `k` on are those of the zero array is its first `k` bytes
zero-padded. -/
theorem toList_eq_rightpad_take {buf : FixedBytes n} {k : Nat} (hk : k ≤ n)
    (hdrop : buf.toList.drop k = (zero n).toList.drop k) :
    buf.toList = (buf.toList.take k).rightpad n 0 := by
  have hlen : (buf.toList.take k).length = k := by
    rw [List.length_take, buf.length_toList]
    omega
  calc buf.toList = buf.toList.take k ++ buf.toList.drop k := (List.take_append_drop k _).symm
    _ = (buf.toList.take k).rightpad n 0 := by
      rw [hdrop, toList_zero, List.drop_replicate, List.rightpad, hlen]

/-- Copying a whole array over one gives it. -/
theorem toList_setPrefix_of_length (buf : FixedBytes n) {l : List UInt8} (hl : l.length = n) :
    (buf.setPrefix l).toList = l := by
  rw [toList_setPrefix, List.take_of_length_le (Nat.le_of_eq hl), hl,
    List.drop_eq_nil_of_le (Nat.le_of_eq buf.length_toList), List.append_nil]

/-- The first `l.len()` bytes after the copy are `l`. -/
theorem take_setPrefix (buf : FixedBytes n) {l : List UInt8} (hl : l.length ≤ n) :
    (buf.setPrefix l).toList.take l.length = l := by
  rw [toList_setPrefix, List.take_of_length_le hl, List.take_left' rfl]

end FixedBytes

/-- `ByteArray::to_list`'s loop from index `i`: the bytes from `i` on, after those collected. -/
theorem byteArray_toList_loop (bs : ByteArray) (i : Nat) (r : List UInt8) :
    ByteArray.toList.loop bs i r = r.reverse ++ bs.data.toList.drop i := by
  fun_induction ByteArray.toList.loop bs i r with
  | case1 i r hi ih =>
    have hi' : i < bs.data.toList.length := by simpa using hi
    rw [ih, List.drop_eq_getElem_cons hi']
    simp [ByteArray.get!, hi]
  | case2 i r hi =>
    rw [List.drop_eq_nil_of_le (by simpa using Nat.le_of_not_lt hi), List.append_nil]

/-- The bytes of a byte array, in order. -/
theorem byteArray_toList (bs : ByteArray) : bs.toList = bs.data.toList := by
  rw [ByteArray.toList, byteArray_toList_loop, List.reverse_nil, List.nil_append, List.drop_zero]

/-- The `k`-byte little-endian encoding of `n`, modulo `256 ^ k`. -/
def leBytes : Nat → Nat → List UInt8
  | 0, _ => []
  | k + 1, n => UInt8.ofNat n :: leBytes k (n / 256)

/-- The value of a little-endian byte string. -/
def ofLeBytes : List UInt8 → Nat
  | [] => 0
  | b :: bs => b.toNat + 256 * ofLeBytes bs

@[simp] theorem length_leBytes (k n : Nat) : (leBytes k n).length = k := by
  induction k generalizing n with
  | zero => rfl
  | succ k ih => simp [leBytes, ih]

theorem ofLeBytes_leBytes (k n : Nat) : ofLeBytes (leBytes k n) = n % 256 ^ k := by
  induction k generalizing n with
  | zero => simp [leBytes, ofLeBytes, Nat.mod_one]
  | succ k ih =>
    have hlow : (UInt8.ofNat n).toNat = n % 256 := UInt8.toNat_ofNat'
    rw [leBytes, ofLeBytes, ih, hlow, Nat.pow_succ', Nat.mod_mul]

/-- A byte string is the encoding of its value. -/
theorem leBytes_ofLeBytes (bs : List UInt8) : leBytes bs.length (ofLeBytes bs) = bs := by
  induction bs with
  | nil => rfl
  | cons b bs ih =>
    have hb := b.toNat_lt
    have hdiv : (b.toNat + 256 * ofLeBytes bs) / 256 = ofLeBytes bs := by omega
    have hlow : UInt8.ofNat (b.toNat + 256 * ofLeBytes bs) = b := by
      apply UInt8.toNat_inj.mp
      rw [UInt8.toNat_ofNat']
      omega
    rw [List.length_cons, leBytes, ofLeBytes, hdiv, hlow, ih]

theorem ofLeBytes_lt (bs : List UInt8) : ofLeBytes bs < 256 ^ bs.length := by
  induction bs with
  | nil => simp [ofLeBytes]
  | cons b bs ih =>
    have hb := b.toNat_lt
    rw [ofLeBytes, List.length_cons, Nat.pow_succ']
    have : 256 * ofLeBytes bs + 256 ≤ 256 * 256 ^ bs.length := by
      rw [← Nat.mul_succ]
      exact Nat.mul_le_mul_left 256 ih
    change b.toNat < 256 at hb
    omega

/-! ## Bits -/

/-- The number of significant bits of `x`. -/
def bitLength (x : Nat) : Nat := if x = 0 then 0 else x.log2 + 1

/-- `leading_zeros` of a `w`-bit value. -/
def leadingZeros (w x : Nat) : Nat := w - bitLength x

/-- A value is below `2 ^ k` exactly when it has at most `k` significant bits. -/
theorem lt_two_pow_iff_bitLength_le {x k : Nat} : x < 2 ^ k ↔ bitLength x ≤ k := by
  unfold bitLength
  split_ifs with hx
  · subst hx
    exact iff_of_true (Nat.two_pow_pos k) (Nat.zero_le k)
  · rw [← Nat.log2_lt hx]
    omega

theorem bitLength_le_of_lt {x w : Nat} (hx : x < 2 ^ w) : bitLength x ≤ w :=
  lt_two_pow_iff_bitLength_le.mp hx

/-- The significant bits of a `w`-bit value are the bits that are not leading zeros. -/
theorem sub_leadingZeros {w x : Nat} (hx : x < 2 ^ w) : w - leadingZeros w x = bitLength x := by
  have := bitLength_le_of_lt hx
  unfold leadingZeros
  omega

/-- `!x` on `w`-bit unsigned integers. -/
def bitNot (w x : Nat) : Nat := 2 ^ w - (x + 1)

/-- Masking with `!(2^k - 1)` clears the low `k` bits: it rounds down to a multiple of `2^k`. -/
theorem and_bitNot_two_pow_sub_one {w k x : Nat} (hx : x < 2 ^ w) (hk : k ≤ w) :
    x &&& bitNot w (2 ^ k - 1) = x / 2 ^ k * 2 ^ k := by
  have hmask : 2 ^ k - 1 < 2 ^ w :=
    Nat.lt_of_lt_of_le (Nat.sub_one_lt (Nat.pos_iff_ne_zero.mp (Nat.two_pow_pos k)))
      (Nat.pow_le_pow_right Nat.two_pos hk)
  apply Nat.eq_of_testBit_eq
  intro i
  rw [bitNot, Nat.testBit_and, Nat.testBit_two_pow_sub_succ hmask, Nat.testBit_two_pow_sub_one,
    ← Nat.shiftRight_eq_div_pow, ← Nat.shiftLeft_eq, Nat.testBit_shiftLeft, Nat.testBit_shiftRight]
  by_cases hki : k ≤ i
  · rw [Nat.add_sub_cancel' hki]
    by_cases hiw : i < w
    · simp [hki, hiw]
    · have hxi : x.testBit i = false :=
        Nat.testBit_lt_two_pow (Nat.lt_of_lt_of_le hx (Nat.pow_le_pow_right Nat.two_pos (by omega)))
      simp [hxi]
  · simp [hki, show i < k by omega]

end Virtualization
