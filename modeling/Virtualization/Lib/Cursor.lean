import Virtualization.Lib.BlockDevice
import Virtualization.Lib.Bytes

/-!
# `std::io::Cursor<Vec<u8>>`

A cursor is a byte buffer and a position in it.  A read takes bytes from the position on;
`read_exact` fails with `UnexpectedEof` when fewer are left, and then leaves the position at the
end.  A write replaces the bytes from the position on and extends the buffer past its end,
padding it with zeros when the position lies past the end; it never fails.  `seek` to an absolute
position and `stream_position` set and read the position.

A buffer read from its start is `consumed ++ remaining`, with the position at the end of
`consumed`.  Reading a field from `consumed ++ (field ++ rest)` leaves `(consumed ++ field) ++
rest` (`readExact_append`), and a read that returns tells what the remaining bytes start with
(`readExact_eq_ok`); a buffer written at its end grows by what is written (`writeAll_append`),
and a write inside it replaces bytes of the same length (`writeAll_inside`).  Encoders and
decoders over a cursor are proved with these, one field at a time.
-/

namespace Virtualization

/-- `std::io::Cursor<Vec<u8>>`: the bytes and the position. -/
structure VecCursor where
  inner : List UInt8
  pos : Nat

namespace VecCursor

/-! ## Reading -/

/-- `read_exact`: `n` bytes from the position on, or `UnexpectedEof` with the position moved to
the end. -/
def readExact (n : Nat) : Stateful VecCursor IoError (List UInt8) := Stateful.step fun c ↦
  if c.pos + n ≤ c.inner.length then (.ok (bytesAt c.inner c.pos n), ⟨c.inner, c.pos + n⟩)
  else (.error unexpectedEof, ⟨c.inner, c.inner.length⟩)

/-- `ReadBytesExt::read_u8`. -/
def readU8 : Stateful VecCursor IoError UInt8 := do
  let buf ← readExact 1
  pure (buf.headD 0)

/-- `ReadBytesExt::read_u32::<LittleEndian>`. -/
def readU32Le : Stateful VecCursor IoError UInt32 := do
  let buf ← readExact 4
  pure (UInt32.ofNat (ofLeBytes buf))

/-- `Seek::stream_position`. -/
def streamPosition : Stateful VecCursor IoError Nat := fun c ↦ .ok (.ok c.pos, c)

/-- `seek(SeekFrom::Start(pos))`. -/
def seekStart (pos : Nat) : Stateful VecCursor IoError Nat := fun c ↦
  .ok (.ok pos, ⟨c.inner, pos⟩)

/-- `seek(SeekFrom::End(0))`: the position moves to the end, and the length is returned. -/
def seekEnd : Stateful VecCursor IoError Nat := fun c ↦
  .ok (.ok c.inner.length, ⟨c.inner, c.inner.length⟩)

/-- A reader of the bytes from the position on, as `&mut` of a cursor or a file passes it to
code generic over `Read`: what the reader takes moves the position. -/
def asStream {α : Type} (x : Stateful (List UInt8) IoError α) : Stateful VecCursor IoError α :=
  fun c ↦
    match x (c.inner.drop c.pos) with
    | .ok (r, rest) => .ok (r, ⟨c.inner, c.pos + ((c.inner.drop c.pos).length - rest.length)⟩)
    | .err e => e.elim
    | .panic => .panic

@[simp] theorem seekEnd_apply (c : VecCursor) :
    (seekEnd c : Outcome Empty _) = .ok (.ok c.inner.length, ⟨c.inner, c.inner.length⟩) := rfl

/-- What a reader of the remaining bytes returns, it returns through the cursor. -/
theorem asStream_eq_ok {α : Type} {x : Stateful (List UInt8) IoError α} {c c' : VecCursor}
    {a : α} (h : asStream x c = .ok (.ok a, c')) :
    ∃ rest, x (c.inner.drop c.pos) = .ok (.ok a, rest) := by
  unfold asStream at h
  split at h
  · rename_i r rest hx
    cases h
    exact ⟨rest, hx⟩
  · rename_i e _
    exact e.elim
  · cases h

@[simp] theorem streamPosition_apply (c : VecCursor) :
    (streamPosition c : Outcome Empty _) = .ok (.ok c.pos, c) := rfl

@[simp] theorem seekStart_apply (pos : Nat) (c : VecCursor) :
    (seekStart pos c : Outcome Empty _) = .ok (.ok pos, ⟨c.inner, pos⟩) := rfl

section Read

variable {n : Nat} {consumed remaining bytes : List UInt8} {c : VecCursor}

/-- Reading a field from the bytes after those consumed. -/
theorem readExact_append (consumed bytes rest : List UInt8) :
    readExact bytes.length ⟨consumed ++ (bytes ++ rest), consumed.length⟩ =
      .ok (.ok bytes, ⟨(consumed ++ bytes) ++ rest, (consumed ++ bytes).length⟩) := by
  have hfit : consumed.length + bytes.length ≤ (consumed ++ (bytes ++ rest)).length := by
    simp only [List.length_append]
    omega
  rw [readExact, Stateful.step_apply, if_pos hfit, bytesAt, List.drop_left, List.take_left,
    List.append_assoc, List.length_append]

/-- A read that returns took the bytes the remaining ones start with. -/
theorem readExact_eq_ok :
    readExact n ⟨consumed ++ remaining, consumed.length⟩ = .ok (.ok bytes, c) ↔
      bytes.length = n ∧ ∃ rest, remaining = bytes ++ rest ∧
        c = ⟨(consumed ++ bytes) ++ rest, (consumed ++ bytes).length⟩ := by
  constructor
  · intro h
    rw [readExact, Stateful.step_apply] at h
    split_ifs at h with hfit
    · simp only [List.length_append] at hfit
      obtain ⟨hbytes, hc⟩ := Prod.mk.inj (Outcome.ok.inj h)
      have htake : remaining.take n = bytes := by
        rw [← Except.ok.inj hbytes, bytesAt, List.drop_left]
      subst htake hc
      refine ⟨List.length_take_of_le (by omega), remaining.drop n,
        (List.take_append_drop n remaining).symm, ?_⟩
      rw [List.append_assoc, List.take_append_drop, List.length_append,
        List.length_take_of_le (by omega)]
    · cases h
  · rintro ⟨rfl, rest, rfl, rfl⟩
    exact readExact_append consumed bytes rest

/-- A `u8` read from its byte. -/
theorem readU8_append (consumed rest : List UInt8) (b : UInt8) :
    readU8 ⟨consumed ++ ([b] ++ rest), consumed.length⟩ =
      .ok (.ok b, ⟨(consumed ++ [b]) ++ rest, (consumed ++ [b]).length⟩) := by
  have hread : readExact 1 ⟨consumed ++ ([b] ++ rest), consumed.length⟩ =
      .ok (.ok [b], ⟨(consumed ++ [b]) ++ rest, (consumed ++ [b]).length⟩) :=
    readExact_append consumed [b] rest
  rw [readU8, Stateful.bind_of_ok hread]
  rfl

theorem readU8_eq_ok {b : UInt8} :
    readU8 ⟨consumed ++ remaining, consumed.length⟩ = .ok (.ok b, c) ↔
      ∃ rest, remaining = [b] ++ rest ∧ c = ⟨(consumed ++ [b]) ++ rest, (consumed ++ [b]).length⟩ := by
  constructor
  · intro h
    obtain ⟨buf, c', hread, hpure⟩ := Stateful.bind_eq_ok.1 h
    obtain ⟨hlen, rest, rfl, rfl⟩ := readExact_eq_ok.1 hread
    obtain ⟨x, rfl⟩ : ∃ x, buf = [x] := List.length_eq_one_iff.1 hlen
    obtain ⟨hx, rfl⟩ := Prod.mk.inj (Outcome.ok.inj hpure)
    obtain rfl : x = b := Except.ok.inj hx
    exact ⟨rest, rfl, rfl⟩
  · rintro ⟨rest, rfl, rfl⟩
    exact readU8_append consumed rest b

/-- A `u32` decodes from its encoding. -/
theorem ofNat_ofLeBytes_leBytes (v : UInt32) : UInt32.ofNat (ofLeBytes (leBytes 4 v.toNat)) = v := by
  have hlt : v.toNat < 256 ^ 4 := v.toNat_lt
  rw [ofLeBytes_leBytes, Nat.mod_eq_of_lt hlt, UInt32.ofNat_toNat]

/-- A `u32` read from its encoding. -/
theorem readU32Le_append (consumed rest : List UInt8) (v : UInt32) :
    readU32Le ⟨consumed ++ (leBytes 4 v.toNat ++ rest), consumed.length⟩ =
      .ok (.ok v, ⟨(consumed ++ leBytes 4 v.toNat) ++ rest,
        (consumed ++ leBytes 4 v.toNat).length⟩) := by
  have hread := readExact_append consumed (leBytes 4 v.toNat) rest
  rw [length_leBytes] at hread
  rw [readU32Le, Stateful.bind_of_ok hread, Stateful.pure_apply, ofNat_ofLeBytes_leBytes]

theorem readU32Le_eq_ok {v : UInt32} :
    readU32Le ⟨consumed ++ remaining, consumed.length⟩ = .ok (.ok v, c) ↔
      ∃ rest, remaining = leBytes 4 v.toNat ++ rest ∧
        c = ⟨(consumed ++ leBytes 4 v.toNat) ++ rest, (consumed ++ leBytes 4 v.toNat).length⟩ := by
  constructor
  · intro h
    obtain ⟨buf, c', hread, hpure⟩ := Stateful.bind_eq_ok.1 h
    obtain ⟨hlen, rest, rfl, rfl⟩ := readExact_eq_ok.1 hread
    obtain ⟨hv, rfl⟩ := Prod.mk.inj (Outcome.ok.inj hpure)
    have hlt : ofLeBytes buf < UInt32.size := lt_of_lt_of_eq (ofLeBytes_lt buf) (hlen ▸ rfl)
    have hbuf : leBytes 4 v.toNat = buf := by
      rw [← Except.ok.inj hv, UInt32.toNat_ofNat_of_lt' hlt, ← hlen, leBytes_ofLeBytes]
    exact ⟨rest, by rw [hbuf], by rw [hbuf]⟩
  · rintro ⟨rest, rfl, rfl⟩
    exact readU32Le_append consumed rest v

end Read

/-! ## Writing -/

/-- The buffer after writing `data` at `pos`: zeros up to `pos` if it lies past the end, then
`data` over what was there. -/
def writeAt (inner : List UInt8) (pos : Nat) (data : List UInt8) : List UInt8 :=
  inner.take pos ++ List.replicate (pos - inner.length) 0 ++ data ++ inner.drop (pos + data.length)

/-- `write_all`. -/
def writeAll (data : List UInt8) : Stateful VecCursor IoError Unit := fun c ↦
  .ok (.ok (), ⟨writeAt c.inner c.pos data, c.pos + data.length⟩)

/-- `WriteBytesExt::write_u8`. -/
def writeU8 (b : UInt8) : Stateful VecCursor IoError Unit := writeAll [b]

/-- `WriteBytesExt::write_u32::<LittleEndian>`. -/
def writeU32Le (v : UInt32) : Stateful VecCursor IoError Unit := writeAll (leBytes 4 v.toNat)

/-- Writing at the end appends. -/
theorem writeAll_append (buf data : List UInt8) :
    writeAll data ⟨buf, buf.length⟩ = .ok (.ok (), ⟨buf ++ data, (buf ++ data).length⟩) := by
  dsimp only [writeAll]
  rw [writeAt, List.take_length, Nat.sub_self, List.replicate_zero, List.append_nil,
    List.drop_eq_nil_of_le (by omega), List.append_nil, List.length_append]

/-- Writing inside the buffer replaces bytes of the same length. -/
theorem writeAll_inside (pre old post data : List UInt8) (h : data.length = old.length) :
    writeAll data ⟨pre ++ old ++ post, pre.length⟩ =
      .ok (.ok (), ⟨pre ++ data ++ post, (pre ++ data).length⟩) := by
  have hdrop : (pre ++ old ++ post).drop (pre.length + data.length) = post := by
    rw [h, ← List.length_append, List.drop_left]
  dsimp only [writeAll]
  rw [writeAt, hdrop, List.append_assoc pre old post, List.take_left,
    Nat.sub_eq_zero_of_le (by simp), List.replicate_zero, List.append_nil, List.length_append]

/-! ## Decoders and encoders -/

section Codec

variable {ε α β : Type}

/-- `x` reads the bytes `bs` and returns `a`, whatever was consumed before and whatever follows. -/
def Reads (x : Stateful VecCursor ε α) (a : α) (bs : List UInt8) : Prop :=
  ∀ consumed rest, x ⟨consumed ++ (bs ++ rest), consumed.length⟩ =
    .ok (.ok a, ⟨(consumed ++ bs) ++ rest, (consumed ++ bs).length⟩)

/-- Whatever `x` returns, it read bytes `bs` with `P a bs` from where it started. -/
def ReadsOnly (x : Stateful VecCursor ε α) (P : α → List UInt8 → Prop) : Prop :=
  ∀ consumed remaining a c, x ⟨consumed ++ remaining, consumed.length⟩ = .ok (.ok a, c) →
    ∃ bs rest, P a bs ∧ remaining = bs ++ rest ∧
      c = ⟨(consumed ++ bs) ++ rest, (consumed ++ bs).length⟩

/-- `x` appends `bs` to a buffer it writes at the end of. -/
def Appends (x : Stateful VecCursor ε Unit) (bs : List UInt8) : Prop :=
  ∀ buf, x ⟨buf, buf.length⟩ = .ok (.ok (), ⟨buf ++ bs, (buf ++ bs).length⟩)

theorem reads_pure (a : α) : Reads (pure a : Stateful VecCursor ε α) a [] := by
  intro consumed rest
  rw [Stateful.pure_apply, List.nil_append, List.append_nil]

/-- A read inside a chain: the rest of the chain runs on the bytes after it. -/
theorem Reads.bind_apply {x : Stateful VecCursor ε α} {f : α → Stateful VecCursor ε β} {a : α}
    {bs : List UInt8} (hx : Reads x a bs) (consumed rest : List UInt8) :
    (x >>= f) ⟨consumed ++ (bs ++ rest), consumed.length⟩ =
      f a ⟨(consumed ++ bs) ++ rest, (consumed ++ bs).length⟩ :=
  Stateful.bind_of_ok (hx consumed rest)

theorem Reads.bind {x : Stateful VecCursor ε α} {f : α → Stateful VecCursor ε β} {a : α} {b : β}
    {bs cs : List UInt8} (hx : Reads x a bs) (hf : Reads (f a) b cs) : Reads (x >>= f) b (bs ++ cs) := by
  intro consumed rest
  rw [List.append_assoc, hx.bind_apply consumed (cs ++ rest), hf]
  simp only [List.append_assoc]

theorem Reads.mapError {ε' : Type} {g : ε → ε'} {x : Stateful VecCursor ε α} {a : α}
    {bs : List UInt8} (hx : Reads x a bs) : Reads (Stateful.mapError g x) a bs :=
  fun consumed rest ↦ Stateful.mapError_eq_ok.2 (hx consumed rest)

/-- A fallible step that returns reads nothing. -/
theorem Reads.lift_bind {x : Outcome ε α} {f : α → Stateful VecCursor ε β} {a : α} {b : β}
    {cs : List UInt8} (hx : x = .ok a) (hf : Reads (f a) b cs) : Reads (Stateful.lift x >>= f) b cs := by
  rw [hx, Stateful.lift_ok_bind]
  exact hf

/-- The last read of a decoder, whose value it builds the result from. -/
theorem Reads.bind_pure {x : Stateful VecCursor ε α} {g : α → β} {a : α} {bs : List UInt8}
    (hx : Reads x a bs) : Reads (x >>= fun a ↦ pure (g a)) (g a) bs := by
  have h := Reads.bind (f := fun a ↦ pure (g a)) hx (reads_pure (g a))
  rwa [List.append_nil] at h

theorem reads_readExact (bytes : List UInt8) : Reads (readExact bytes.length) bytes bytes :=
  fun consumed rest ↦ readExact_append consumed bytes rest

theorem reads_readU8 (b : UInt8) : Reads readU8 b [b] :=
  fun consumed rest ↦ readU8_append consumed rest b

theorem reads_readU32Le (v : UInt32) : Reads readU32Le v (leBytes 4 v.toNat) :=
  fun consumed rest ↦ readU32Le_append consumed rest v

/-- A read inside a chain that returned: the rest of the chain returned from the bytes after
it. -/
theorem ReadsOnly.bind_eq_ok {x : Stateful VecCursor ε α} {f : α → Stateful VecCursor ε β}
    {P : α → List UInt8 → Prop} (hx : ReadsOnly x P) {consumed remaining : List UInt8} {b : β}
    {c : VecCursor} (h : (x >>= f) ⟨consumed ++ remaining, consumed.length⟩ = .ok (.ok b, c)) :
    ∃ a bs rest, P a bs ∧ remaining = bs ++ rest ∧
      f a ⟨(consumed ++ bs) ++ rest, (consumed ++ bs).length⟩ = .ok (.ok b, c) := by
  obtain ⟨a, c', hxa, hfb⟩ := Stateful.bind_eq_ok.1 h
  obtain ⟨bs, rest, hP, hrem, rfl⟩ := hx consumed remaining a c' hxa
  exact ⟨a, bs, rest, hP, hrem, hfb⟩

/-- A decoder that returns reads what its last step is told to expect: each step of a chain of
reads passes what it read on to the rest, so that the bytes read are assembled in order. -/
theorem ReadsOnly.bind {x : Stateful VecCursor ε α} {f : α → Stateful VecCursor ε β}
    {P : α → List UInt8 → Prop} {R : β → List UInt8 → Prop} (hx : ReadsOnly x P)
    (hf : ∀ a bs, P a bs → ReadsOnly (f a) fun b cs ↦ R b (bs ++ cs)) : ReadsOnly (x >>= f) R := by
  intro consumed remaining b c h
  obtain ⟨a, bs, rest, hP, rfl, hfb⟩ := hx.bind_eq_ok h
  obtain ⟨cs, rest', hR, rfl, rfl⟩ := hf a bs hP (consumed ++ bs) rest b c hfb
  exact ⟨bs ++ cs, rest', hR, by rw [List.append_assoc], by simp only [List.append_assoc]⟩

theorem readsOnly_pure {a : α} {R : α → List UInt8 → Prop} (h : R a []) :
    ReadsOnly (pure a : Stateful VecCursor ε α) R := by
  intro consumed remaining b c hpure
  obtain ⟨hb, rfl⟩ := Prod.mk.inj (Outcome.ok.inj hpure)
  obtain rfl := Except.ok.inj hb
  exact ⟨[], remaining, h, rfl, by rw [List.append_nil]⟩

theorem readsOnly_lift {x : Outcome ε α} {R : α → List UInt8 → Prop}
    (h : ∀ a, x = .ok a → R a []) : ReadsOnly (Stateful.lift x : Stateful VecCursor ε α) R := by
  intro consumed remaining a c ha
  obtain ⟨hx, rfl⟩ := Stateful.lift_eq_ok.1 ha
  exact ⟨[], remaining, h a hx, rfl, by rw [List.append_nil]⟩

/-- A fallible step that returns reads nothing. -/
theorem ReadsOnly.lift_bind {x : Outcome ε α} {f : α → Stateful VecCursor ε β}
    {R : β → List UInt8 → Prop} (hf : ∀ a, x = .ok a → ReadsOnly (f a) R) :
    ReadsOnly (Stateful.lift x >>= f) R :=
  (readsOnly_lift (R := fun a bs ↦ x = .ok a ∧ bs = []) fun _ hx ↦ ⟨hx, rfl⟩).bind
    fun a _ ⟨hx, hbs⟩ ↦ hbs ▸ hf a hx

theorem ReadsOnly.mono {x : Stateful VecCursor ε α} {P Q : α → List UInt8 → Prop}
    (hx : ReadsOnly x P) (hPQ : ∀ a bs, P a bs → Q a bs) : ReadsOnly x Q := by
  intro consumed remaining a c h
  obtain ⟨bs, rest, hP, hrem, hc⟩ := hx consumed remaining a c h
  exact ⟨bs, rest, hPQ a bs hP, hrem, hc⟩

theorem ReadsOnly.mapError {ε' : Type} {g : ε → ε'} {x : Stateful VecCursor ε α}
    {P : α → List UInt8 → Prop} (hx : ReadsOnly x P) : ReadsOnly (Stateful.mapError g x) P :=
  fun consumed remaining a c h ↦ hx consumed remaining a c (Stateful.mapError_eq_ok.1 h)

theorem readsOnly_readExact (n : Nat) :
    ReadsOnly (readExact n) fun a bs ↦ a = bs ∧ bs.length = n := by
  intro consumed remaining a c h
  obtain ⟨hlen, rest, hrem, hc⟩ := readExact_eq_ok.1 h
  exact ⟨a, rest, ⟨rfl, hlen⟩, hrem, hc⟩

theorem readsOnly_readU8 : ReadsOnly readU8 fun b bs ↦ bs = [b] := by
  intro consumed remaining b c h
  obtain ⟨rest, hrem, hc⟩ := readU8_eq_ok.1 h
  exact ⟨[b], rest, rfl, hrem, hc⟩

theorem readsOnly_readU32Le : ReadsOnly readU32Le fun v bs ↦ bs = leBytes 4 v.toNat := by
  intro consumed remaining v c h
  obtain ⟨rest, hrem, hc⟩ := readU32Le_eq_ok.1 h
  exact ⟨leBytes 4 v.toNat, rest, rfl, hrem, hc⟩

theorem Appends.bind {x y : Stateful VecCursor ε Unit} {bs cs : List UInt8} (hx : Appends x bs)
    (hy : Appends y cs) : Appends (x >>= fun _ ↦ y) (bs ++ cs) := by
  intro buf
  rw [Stateful.bind_of_ok (hx buf), hy, List.append_assoc]

theorem Appends.mapError {ε' : Type} {g : ε → ε'} {x : Stateful VecCursor ε Unit}
    {bs : List UInt8} (hx : Appends x bs) : Appends (Stateful.mapError g x) bs :=
  fun buf ↦ Stateful.mapError_eq_ok.2 (hx buf)

theorem appends_pure : Appends (pure () : Stateful VecCursor ε Unit) [] := by
  intro buf
  rw [Stateful.pure_apply, List.append_nil]

theorem appends_writeAll (data : List UInt8) : Appends (writeAll data) data :=
  fun buf ↦ writeAll_append buf data

theorem appends_writeU8 (b : UInt8) : Appends (writeU8 b) [b] := appends_writeAll [b]

theorem appends_writeU32Le (v : UInt32) : Appends (writeU32Le v) (leBytes 4 v.toNat) :=
  appends_writeAll _

end Codec

end VecCursor

end Virtualization
