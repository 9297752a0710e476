import Mathlib

/-!
# Readers of byte streams

A reader takes a value off the front of a byte stream or fails.  An encoding
is right for a reader when the reader gives the value back and leaves
whatever follows it: `Reads r bs a`.  The rules below compose this relation
the way readers are composed, so that a round trip is proved along the
reader's own `do` block.
-/

namespace Agrarian.Lib.ByteCodec

/-- A reader consumes a prefix of the stream, or throws. -/
abbrev Reader (α : Type) := StateT (List UInt8) Option α

/-- The reader takes exactly `bs` off every stream that starts with `bs`,
and yields `a`. -/
def Reads {α : Type} (r : Reader α) (bs : List UInt8) (a : α) : Prop :=
  ∀ rest, r.run (bs ++ rest) = some (a, rest)

section Combinators

variable {α β : Type}

theorem reads_pure (a : α) : Reads (pure a) [] a := fun _ => rfl

theorem Reads.bind {r : Reader α} {f : α → Reader β} {bs cs : List UInt8}
    {a : α} {b : β} (hr : Reads r bs a) (hf : Reads (f a) cs b) :
    Reads (r >>= f) (bs ++ cs) b := by
  intro rest
  rw [StateT.run_bind, List.append_assoc, hr (cs ++ rest)]
  exact hf rest

theorem Reads.map {r : Reader α} {bs : List UInt8} {a : α}
    (hr : Reads r bs a) (f : α → β) : Reads (f <$> r) bs (f a) := by
  intro rest
  rw [StateT.run_map, hr rest]
  rfl

/-- The last step of a `do` block, which reads nothing more. -/
theorem Reads.bind_pure {r : Reader α} {f : α → Reader β} {bs : List UInt8}
    {a : α} {b : β} (hr : Reads r bs a) (hf : Reads (f a) [] b) :
    Reads (r >>= f) bs b := by
  have h := hr.bind hf
  rwa [List.append_nil] at h

theorem reads_guard {p : Prop} [Decidable p] (hp : p) :
    Reads (guard p) [] () := by
  intro rest
  rw [guard, if_pos hp]
  rfl

end Combinators

/-! ## Bytes -/

/-- `READDATA` of one byte. -/
def readByte : Reader UInt8 := fun
  | [] => none
  | b :: rest => some (b, rest)

theorem reads_byte (b : UInt8) : Reads readByte [b] b := fun _ => rfl

/-- `READDATA` of `n` bytes. -/
def readBytes (n : Nat) : Reader (List UInt8) := fun bs =>
  if bs.length < n then none else some (bs.take n, bs.drop n)

theorem reads_bytes (bs : List UInt8) : Reads (readBytes bs.length) bs bs := by
  intro rest
  have hlen : ¬ (bs ++ rest).length < bs.length := by
    rw [List.length_append]
    omega
  show readBytes bs.length (bs ++ rest) = some (bs, rest)
  rw [readBytes, if_neg hlen, List.take_left, List.drop_left]

theorem reads_bytes_of_length {bs : List UInt8} {n : Nat}
    (hlen : bs.length = n) : Reads (readBytes n) bs bs :=
  hlen ▸ reads_bytes bs

/-! ## Sequences -/

/-- `n` values, one after the other. -/
def readMany {α : Type} (r : Reader α) : Nat → Reader (List α)
  | 0 => pure []
  | n + 1 => do
      let a ← r
      let as ← readMany r n
      pure (a :: as)

theorem reads_many {α : Type} {r : Reader α} {write : α → List UInt8}
    {as : List α} (hr : ∀ a ∈ as, Reads r (write a) a) :
    Reads (readMany r as.length) (as.flatMap write) as := by
  induction as with
  | nil => exact reads_pure []
  | cons a as ih =>
      have htail := ih fun b hb => hr b (List.mem_cons_of_mem a hb)
      rw [List.length_cons, List.flatMap_cons, readMany]
      refine (hr a List.mem_cons_self).bind ?_
      exact htail.bind_pure (reads_pure (a :: as))

/-! ## Little-endian numbers -/

/-- The low `width` bytes of `n`, least significant first. -/
def natLE : Nat → Nat → List UInt8
  | 0, _ => []
  | width + 1, n => UInt8.ofNat n :: natLE width (n / 256)

/-- The number with the given bytes, least significant first. -/
def ofLE : List UInt8 → Nat
  | [] => 0
  | b :: bs => b.toNat + 256 * ofLE bs

@[simp] theorem length_natLE (width n : Nat) :
    (natLE width n).length = width := by
  induction width generalizing n with
  | zero => rfl
  | succ width ih => simp [natLE, ih]

/-- A number below `256 ^ width` survives its `width` bytes. -/
theorem ofLE_natLE {width n : Nat} (hn : n < 256 ^ width) :
    ofLE (natLE width n) = n := by
  induction width generalizing n with
  | zero =>
      have hzero : n = 0 := by simpa using hn
      rw [hzero]
      rfl
  | succ width ih =>
      have hdiv : n / 256 < 256 ^ width := by
        rw [Nat.pow_succ] at hn
        exact Nat.div_lt_of_lt_mul (by omega)
      have hlow : (UInt8.ofNat n).toNat = n % 256 := by simp
      rw [natLE, ofLE, ih hdiv, hlow]
      omega

/-- A number of `width` bytes, least significant first. -/
def readNatLE (width : Nat) : Reader Nat := ofLE <$> readBytes width

theorem reads_natLE {width n : Nat} (hn : n < 256 ^ width) :
    Reads (readNatLE width) (natLE width n) n := by
  have h := (reads_bytes_of_length (length_natLE width n)).map ofLE
  rwa [ofLE_natLE hn] at h

/-! ## Bits packed in bytes -/

/-- Bit `i` of a byte, as the expression `(b & (1 << i)) != 0`. -/
def bitAt (b : UInt8) (i : Nat) : Bool := (b.toNat &&& (1 <<< i)) != 0

/-- `b |= bit << i` on a byte. -/
def setBit (b : UInt8) (i : Nat) (bit : Bool) : UInt8 :=
  UInt8.ofNat (b.toNat ||| (bit.toNat <<< i))

theorem bitAt_eq_testBit (b : UInt8) (i : Nat) :
    bitAt b i = b.toNat.testBit i := by
  rw [bitAt, Nat.one_shiftLeft, Nat.and_two_pow]
  cases b.toNat.testBit i <;> simp

@[simp] theorem bitAt_zero (i : Nat) : bitAt 0 i = false := by
  rw [bitAt_eq_testBit]
  exact Nat.zero_testBit i

/-- A byte without a set bit is zero. -/
theorem eq_zero_of_bitAt {b : UInt8} (h : ∀ i < 8, bitAt b i = false) :
    b = 0 := by
  refine UInt8.toNat_inj.mp (Nat.eq_of_testBit_eq (fun i => ?_))
  rw [UInt8.toNat_zero, Nat.zero_testBit]
  rcases Nat.lt_or_ge i 8 with hi | hi
  · rw [← bitAt_eq_testBit, h i hi]
  · refine Nat.testBit_eq_false_of_lt ?_
    exact Nat.lt_of_lt_of_le b.toNat_lt (Nat.pow_le_pow_right (by decide) hi)

theorem testBit_toNat_shiftLeft (bit : Bool) (i j : Nat) :
    (bit.toNat <<< i).testBit j = (bit && decide (i = j)) := by
  cases bit with
  | false => simp
  | true =>
      simp only [Bool.toNat_true, Nat.one_shiftLeft, Bool.true_and]
      exact Nat.testBit_two_pow

/-- Setting a bit changes no other bit of the byte. -/
theorem bitAt_setBit (b : UInt8) {i j : Nat} (bit : Bool) (hj : j < 8) :
    bitAt (setBit b i bit) j = (bitAt b j || (bit && decide (i = j))) := by
  have hbyte : (UInt8.ofNat (b.toNat ||| (bit.toNat <<< i))).toNat =
      (b.toNat ||| (bit.toNat <<< i)) % 2 ^ 8 := UInt8.toNat_ofNat'
  rw [bitAt_eq_testBit, setBit, hbyte, Nat.testBit_mod_two_pow,
    Nat.testBit_lor, testBit_toNat_shiftLeft, ← bitAt_eq_testBit]
  simp [hj]

end Agrarian.Lib.ByteCodec
