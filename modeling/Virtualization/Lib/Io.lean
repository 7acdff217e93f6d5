import Virtualization.Lib.Outcome

/-!
# `std::io`

An `io::Error` is either a raw OS error, `io::Error::from_raw_os_error(errno)`, or an error of
another kind built with `io::Error::new`; the Linux `errno` values the services return are named
here.  An `io::Write` sink is a state `W` with the bytes written so far: `write` takes a prefix
of the buffer, as long as the sink decides, and reports its length, which is the contract of
`io::Write::write`; it returns or fails, and never panics.
-/

namespace Virtualization

/-- `io::Error`. -/
inductive IoError where
  /-- `io::Error::from_raw_os_error(errno)`. -/
  | os (errno : Nat)
  /-- `io::Error::new(kind, ..)`, for a kind that is not an OS error. -/
  | other (kind : String)
deriving DecidableEq, Repr

/-- `libc::EPERM`. -/
def EPERM : Nat := 1
/-- `libc::ENOENT`. -/
def ENOENT : Nat := 2
/-- `libc::EIO`. -/
def EIO : Nat := 5
/-- `libc::EBADF`. -/
def EBADF : Nat := 9
/-- `libc::EACCES`. -/
def EACCES : Nat := 13
/-- `libc::EBUSY`. -/
def EBUSY : Nat := 16
/-- `libc::EEXIST`. -/
def EEXIST : Nat := 17
/-- `libc::ENOTDIR`. -/
def ENOTDIR : Nat := 20
/-- `libc::EISDIR`. -/
def EISDIR : Nat := 21
/-- `libc::EINVAL`. -/
def EINVAL : Nat := 22
/-- `libc::EFBIG`. -/
def EFBIG : Nat := 27
/-- `libc::ENOSPC`. -/
def ENOSPC : Nat := 28
/-- `libc::EMLINK`. -/
def EMLINK : Nat := 31
/-- `libc::ENOSYS`. -/
def ENOSYS : Nat := 38
/-- `libc::ENOTEMPTY`. -/
def ENOTEMPTY : Nat := 39
/-- `libc::ENODATA`. -/
def ENODATA : Nat := 61
/-- `libc::EOVERFLOW`. -/
def EOVERFLOW : Nat := 75
/-- `libc::EILSEQ`. -/
def EILSEQ : Nat := 84

/-- An `io::Write` sink with state `W`; `written w` is what it holds. -/
structure Write (W : Type) where
  write : W → List UInt8 → Except IoError (Nat × W)
  written : W → List UInt8
  /-- A write that succeeds takes a prefix of the buffer and reports its length. -/
  write_spec : ∀ w buf s w', write w buf = .ok (s, w') →
    s ≤ buf.length ∧ written w' = written w ++ buf.take s

/-- A sink that takes every buffer whole. -/
def Write.Accepts {W : Type} (out : Write W) : Prop :=
  ∀ w data, ∃ w', out.write w data = .ok (data.length, w')

/-- `impl io::Write for Vec<u8>`: every buffer is appended whole. -/
def Write.vec : Write (List UInt8) where
  write w buf := .ok (buf.length, w ++ buf)
  written w := w
  write_spec := by
    intro w buf s w' h
    cases h
    exact ⟨Nat.le_refl _, by rw [List.take_length]⟩

theorem Write.accepts_vec : Write.vec.Accepts := fun w data ↦ ⟨w ++ data, rfl⟩

end Virtualization
