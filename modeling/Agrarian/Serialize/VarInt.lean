import Agrarian.Lib.Canonical
import Agrarian.Lib.Numeration
import Agrarian.Serialize.Stream

/-!
# Variable-length integers as a numeration

Seven bits a byte, most significant first, and one taken off all digits but
the last: `VARINT` is the bijective numeration in base 128 with the high bit
of a byte saying that another digit follows.  Over unbounded numbers it is
one to one.  `ReadVarInt` follows it digit by digit in an integer of `w`
bits, and what it accepts is not bounded by that width.
-/

namespace Agrarian.Serialize

open Agrarian.Lib
open Agrarian.Lib.ByteCodec

/-! ## The format -/

/-- The number a byte sequence encodes: the low seven bits of the last byte,
and those of every other byte, with one added, at their place. -/
def varIntNumber : List UInt8 → Nat
  | [] => 0
  | [a] => a.toNat &&& 0x7F
  | a :: as => 128 ^ as.length * ((a.toNat &&& 0x7F) + 1) + varIntNumber as

/-- The bytes of a digit list. -/
def varIntCode : List Nat → List UInt8
  | [] => []
  | [d] => [UInt8.ofNat d]
  | d :: ds => UInt8.ofNat (d + 128) :: varIntCode ds

theorem varIntCode_cons (d : Nat) {ds : List Nat} (hds : ds ≠ []) :
    varIntCode (d :: ds) = UInt8.ofNat (d + 128) :: varIntCode ds := by
  cases ds with
  | nil => exact absurd rfl hds
  | cons e ds => rfl

@[simp] theorem length_varIntCode (ds : List Nat) :
    (varIntCode ds).length = ds.length := by
  induction ds with
  | nil => rfl
  | cons d ds ih =>
      cases ds with
      | nil => rfl
      | cons e ds =>
          rw [varIntCode_cons d (List.cons_ne_nil e ds), List.length_cons, ih]
          rfl

/-- Behind other digits the last one is written as it would be alone. -/
theorem varIntCode_concat (ds : List Nat) (d : Nat) :
    varIntCode (ds ++ [d]) =
      ds.map (fun e => UInt8.ofNat (e + 128)) ++ [UInt8.ofNat d] := by
  induction ds with
  | nil => rfl
  | cons e ds ih =>
      have hne : ds ++ [d] ≠ [] := by simp
      rw [List.cons_append, varIntCode_cons e hne, ih, List.map_cons,
        List.cons_append]

/-- The low seven bits of the bytes are the digits. -/
theorem varIntNumber_code {ds : List Nat} (hds : ∀ d ∈ ds, d < 128) :
    varIntNumber (varIntCode ds) = Numeration.value 128 ds := by
  induction ds with
  | nil => rfl
  | cons d ds ih =>
      have hd : d < 128 := hds d List.mem_cons_self
      have htail := ih fun e he => hds e (List.mem_cons_of_mem d he)
      cases ds with
      | nil =>
          show (UInt8.ofNat d).toNat &&& 0x7F = d
          rw [UInt8.toNat_ofNat', and_low]
          omega
      | cons e ds =>
          have hbyte : (UInt8.ofNat (d + 128)).toNat &&& 0x7F = d := by
            rw [UInt8.toNat_ofNat', and_low]
            omega
          have hcode : varIntCode (e :: ds) ≠ [] := by
            rw [← List.length_pos_iff, length_varIntCode]
            exact Nat.succ_pos _
          obtain ⟨a, as, has⟩ := List.exists_cons_of_ne_nil hcode
          have hlen := length_varIntCode (e :: ds)
          rw [varIntCode_cons d (List.cons_ne_nil e ds), has]
          rw [has] at htail hlen
          show 128 ^ (a :: as).length *
              (((UInt8.ofNat (d + 128)).toNat &&& 0x7F) + 1) +
              varIntNumber (a :: as) =
            128 ^ (e :: ds).length * (d + 1) + Numeration.value 128 (e :: ds)
          rw [hbyte, hlen, htail]

/-! ## The writer -/

/-- The loop stores the last digit first, and every digit of the rest in
front of what is stored. -/
private theorem writeVarIntLoop_eq :
    ∀ (n : Nat) (tmp : List UInt8), tmp ≠ [] →
      writeVarIntLoop n tmp =
        (Numeration.digits 128 n).map (fun d => UInt8.ofNat (d + 128)) ++
          tmp := by
  intro n
  induction n using Nat.strongRecOn with
  | ind n ih =>
      intro tmp htmp
      have hb : UInt8.ofNat ((n &&& 0x7F) |||
          (if tmp.isEmpty then 0x00 else 0x80)) =
          UInt8.ofNat (n % 128 + 128) := by
        rw [and_low, List.isEmpty_eq_false_iff.mpr htmp,
          if_neg Bool.false_ne_true, or_high (Nat.mod_lt n (by decide))]
      rw [writeVarIntLoop, hb]
      by_cases hlast : n ≤ 0x7F
      · rw [if_pos hlast, Numeration.digits_of_lt (by omega),
          Nat.mod_eq_of_lt (by omega)]
        rfl
      · have hprev : (n >>> 7) - 1 = n / 128 - 1 := by
          rw [Nat.shiftRight_eq_div_pow]
        rw [if_neg hlast, hprev, ih _ (by omega) _ (List.cons_ne_nil _ _),
          Numeration.digits_of_le (by decide) (Nat.not_le.mp hlast),
          List.map_append, List.append_assoc]
        rfl

/-- **The writer writes the digits.** -/
theorem writeVarInt_eq_code (n : Nat) :
    writeVarInt n = varIntCode (Numeration.digits 128 n) := by
  have hb : UInt8.ofNat ((n &&& 0x7F) |||
      (if ([] : List UInt8).isEmpty then 0x00 else 0x80)) =
      UInt8.ofNat (n % 128) := by
    rw [and_low]
    simp
  rw [writeVarInt, writeVarIntLoop, hb]
  by_cases hlast : n ≤ 0x7F
  · rw [if_pos hlast, Numeration.digits_of_lt (by omega),
      Nat.mod_eq_of_lt (by omega)]
    rfl
  · have hprev : (n >>> 7) - 1 = n / 128 - 1 := by
      rw [Nat.shiftRight_eq_div_pow]
    rw [if_neg hlast, hprev, writeVarIntLoop_eq _ _ (List.cons_ne_nil _ _),
      Numeration.digits_of_le (by decide) (Nat.not_le.mp hlast),
      varIntCode_concat]

/-- The number written is the one encoded. -/
theorem varIntNumber_writeVarInt (n : Nat) :
    varIntNumber (writeVarInt n) = n := by
  rw [writeVarInt_eq_code,
    varIntNumber_code (Numeration.digits_lt (by decide) n),
    Numeration.value_digits (by decide)]

theorem writeVarInt_injective {m n : Nat} (h : writeVarInt m = writeVarInt n) :
    m = n := by
  rw [← varIntNumber_writeVarInt m, h, varIntNumber_writeVarInt]

/-! ## The reader -/

/-- One byte of the loop: the value so far, mod `2 ^ w`, has one more digit
put behind it. -/
private theorem readVarIntLoop_digit (w m d : Nat) (hd : d < 128)
    (bs : List UInt8) :
    readVarIntLoop w m (UInt8.ofNat d :: bs) =
        some ((128 * m + d) % 2 ^ w, bs) ∧
      readVarIntLoop w m (UInt8.ofNat (d + 128) :: bs) =
        readVarIntLoop w (((128 * m + d) % 2 ^ w + 1) % 2 ^ w) bs := by
  have hlast : (UInt8.ofNat d).toNat = d := by
    rw [UInt8.toNat_ofNat']
    omega
  have hmore : (UInt8.ofNat (d + 128)).toNat = d + 128 := by
    rw [UInt8.toNat_ofNat']
    omega
  have hlow : (d + 128) % 128 = d % 128 := by omega
  constructor
  · have hclear := (high_bit (UInt8.ofNat d)).mpr (by omega)
    rw [readVarIntLoop]
    rw [if_neg (not_not.mpr hclear), hlast, and_low, shift_or,
      Nat.mod_eq_of_lt hd]
  · have hset : (UInt8.ofNat (d + 128)).toNat &&& 0x80 ≠ 0 := by
      rw [Ne, high_bit]
      omega
    rw [readVarIntLoop]
    rw [if_pos hset, hmore, and_low, hlow, shift_or, Nat.mod_eq_of_lt hd]

/-- The loop on a digit list: the digits above `w` bits are dropped on the
way. -/
private theorem readVarIntLoop_code (w : Nat) (rest : List UInt8) :
    ∀ (ds : List Nat) (m : Nat), ds ≠ [] → (∀ d ∈ ds, d < 128) →
      readVarIntLoop w m (varIntCode ds ++ rest) =
        some ((128 ^ ds.length * m + Numeration.value 128 ds) % 2 ^ w,
          rest) := by
  intro ds
  induction ds with
  | nil => exact fun m h => absurd rfl h
  | cons d ds ih =>
      intro m _ hds
      have hd : d < 128 := hds d List.mem_cons_self
      cases ds with
      | nil =>
          rw [varIntCode, List.cons_append,
            (readVarIntLoop_digit w m d hd _).1]
          simp [Numeration.value]
      | cons e ds =>
          have hvalue : Numeration.value 128 (d :: e :: ds) =
              128 ^ (e :: ds).length * (d + 1) +
                Numeration.value 128 (e :: ds) := rfl
          have hlen : (d :: e :: ds).length = (e :: ds).length + 1 := rfl
          rw [varIntCode_cons d (List.cons_ne_nil e ds), List.cons_append,
            (readVarIntLoop_digit w m d hd _).2,
            ih _ (List.cons_ne_nil e ds)
              (fun x hx => hds x (List.mem_cons_of_mem d hx)),
            hvalue, hlen, Nat.pow_succ]
          generalize 128 ^ (e :: ds).length = p
          generalize Numeration.value 128 (e :: ds) = v
          have hstep : ((128 * m + d) % 2 ^ w + 1) % 2 ^ w ≡
              128 * m + d + 1 [MOD 2 ^ w] :=
            (Nat.mod_modEq _ _).trans ((Nat.mod_modEq _ _).add_right 1)
          have hsum : (p * (((128 * m + d) % 2 ^ w + 1) % 2 ^ w) + v) % 2 ^ w =
              (p * (128 * m + d + 1) + v) % 2 ^ w :=
            (hstep.mul_left p).add_right v
          have hring : p * (128 * m + d + 1) + v =
              p * 128 * m + (p * (d + 1) + v) := by ring
          rw [hsum, hring]

/-- What the loop takes is a digit list. -/
private theorem readVarIntLoop_eq_some {w n : Nat} {rest : List UInt8} :
    ∀ (bs : List UInt8) (m : Nat), readVarIntLoop w m bs = some (n, rest) →
      ∃ ds, ds ≠ [] ∧ (∀ d ∈ ds, d < 128) ∧ bs = varIntCode ds ++ rest := by
  intro bs
  induction bs with
  | nil =>
      intro m h
      cases h
  | cons chData bs ih =>
      intro m h
      have hch := chData.toNat_lt
      have hhigh := high_bit chData
      rw [readVarIntLoop] at h
      split at h
      · next hmore =>
          obtain ⟨ds, hne, hds, rfl⟩ := ih _ h
          have hset : ¬ chData.toNat < 128 := fun hc => hmore (hhigh.mpr hc)
          obtain ⟨d, hd⟩ : ∃ d, chData.toNat = d + 128 :=
            ⟨chData.toNat - 128, by omega⟩
          have hbyte : UInt8.ofNat (d + 128) = chData := by
            rw [← hd, UInt8.ofNat_toNat]
          refine ⟨d :: ds, List.cons_ne_nil _ _, ?_, ?_⟩
          · intro x hx
            rcases List.mem_cons.mp hx with hhead | hx
            · omega
            · exact hds x hx
          · rw [varIntCode_cons _ hne, hbyte, List.cons_append]
      · next hlast =>
          obtain ⟨-, hrest⟩ := Prod.mk.inj (Option.some.inj h)
          have hsmall : chData.toNat < 128 := hhigh.mp (not_not.mp hlast)
          refine ⟨[chData.toNat], List.cons_ne_nil _ _, ?_, ?_⟩
          · intro d hd
            rw [List.mem_singleton.mp hd]
            exact hsmall
          · rw [← hrest]
            simp [varIntCode]

/-- **What the reader accepts**: the encoding of any number, of which it
keeps the low `w` bits. -/
theorem readVarInt_iff {w n : Nat} {bs rest : List UInt8} :
    (readVarInt w).run bs = some (n, rest) ↔
      ∃ N, bs = writeVarInt N ++ rest ∧ n = N % 2 ^ w := by
  have hread : ∀ N, (readVarInt w).run (writeVarInt N ++ rest) =
      some (N % 2 ^ w, rest) := by
    intro N
    show readVarIntLoop w 0 (writeVarInt N ++ rest) = _
    rw [writeVarInt_eq_code, readVarIntLoop_code w rest _ 0
        (Numeration.digits_ne_nil 128 N) (Numeration.digits_lt (by decide) N),
      Numeration.value_digits (by decide), Nat.mul_zero, Nat.zero_add]
  constructor
  · intro h
    obtain ⟨ds, hne, hds, rfl⟩ := readVarIntLoop_eq_some bs 0 h
    have hcode : varIntCode ds = writeVarInt (Numeration.value 128 ds) := by
      rw [writeVarInt_eq_code, Numeration.digits_value (by decide) hne hds]
    refine ⟨Numeration.value 128 ds, by rw [hcode], ?_⟩
    rw [hcode, hread] at h
    exact (Prod.mk.inj (Option.some.inj h)).1.symm
  · rintro ⟨N, rfl, rfl⟩
    exact hread N

/-- Every value of the type is read back. -/
theorem reads_varInt {w n : Nat} (hn : n < 2 ^ w) :
    Reads (readVarInt w) (writeVarInt n) n := by
  intro rest
  exact readVarInt_iff.mpr ⟨n, rfl, (Nat.mod_eq_of_lt hn).symm⟩

/-! ## Encodings of numbers that are too large -/

/-- **When the code is one to one.**  Bytes that `ReadVarInt` takes for an
integer of `w` bits encode some number; the value returned is that number
mod `2 ^ w`, and writing it gives the bytes back exactly when the number was
below `2 ^ w`. -/
theorem varInt_one_to_one_iff (w : Nat) {a rest : List UInt8} {n : Nat}
    (h : (readVarInt w).run (a ++ rest) = some (n, rest)) :
    n = varIntNumber a % 2 ^ w ∧
      (writeVarInt n = a ↔ varIntNumber a < 2 ^ w) := by
  obtain ⟨N, hbs, rfl⟩ := readVarInt_iff.mp h
  obtain rfl := List.append_cancel_right hbs
  rw [varIntNumber_writeVarInt]
  refine ⟨rfl, ?_⟩
  constructor
  · intro heq
    have hmod : N % 2 ^ w = N := writeVarInt_injective heq
    rw [← hmod]
    exact Nat.mod_lt N (Nat.two_pow_pos w)
  · intro hlt
    rw [Nat.mod_eq_of_lt hlt]

/-- The encoding of `2 ^ 32` read as an `unsigned int`. -/
theorem varInt_one_to_one_wraps :
    (readVarInt 32).run [0x8E, 0xFE, 0xFE, 0xFF, 0x00] = some (0, []) ∧
      writeVarInt 0 ≠ [0x8E, 0xFE, 0xFE, 0xFF, 0x00] := by
  refine ⟨by decide, ?_⟩
  rw [writeVarInt_of_le (by decide)]
  decide

theorem varInt_one_to_one_fits : writeVarInt 16511 = [0xFF, 0x7F] := by
  have hrun : (readVarInt 32).run ([0xFF, 0x7F] ++ []) = some (16511, []) := by
    decide
  exact (varInt_one_to_one_iff 32 hrun).2.mpr (by decide)

/-! ## Sizes -/

/-- The loop of `GetSizeOfVarInt`, with `nRet` bytes counted so far. -/
def getSizeOfVarIntLoop (n nRet : Nat) : Nat :=
  let nRet := nRet + 1
  if n ≤ 0x7F then nRet
  else getSizeOfVarIntLoop ((n >>> 7) - 1) nRet
termination_by n
decreasing_by
  rw [Nat.shiftRight_eq_div_pow]
  omega

def getSizeOfVarInt (n : Nat) : Nat := getSizeOfVarIntLoop n 0

/-- The two loops take the same rounds. -/
private theorem length_writeVarIntLoop :
    ∀ (n : Nat) (tmp : List UInt8),
      (writeVarIntLoop n tmp).length = getSizeOfVarIntLoop n tmp.length := by
  intro n
  induction n using Nat.strongRecOn with
  | ind n ih =>
      intro tmp
      rw [writeVarIntLoop, getSizeOfVarIntLoop]
      by_cases hlast : n ≤ 0x7F
      · rw [if_pos hlast, if_pos hlast, List.length_cons]
      · have hprev : (n >>> 7) - 1 < n := by
          rw [Nat.shiftRight_eq_div_pow]
          omega
        rw [if_neg hlast, if_neg hlast, ih _ hprev, List.length_cons]

theorem length_writeVarInt (n : Nat) :
    (writeVarInt n).length = getSizeOfVarInt n :=
  length_writeVarIntLoop n []

/-- The buffer `tmp` has room for every value of the type. -/
theorem length_writeVarInt_le {w n : Nat} (hw : 0 < w) (hn : n < 2 ^ w) :
    (writeVarInt n).length ≤ (w + 6) / 7 := by
  rw [writeVarInt_eq_code, length_varIntCode]
  by_cases hlen : 1 < (Numeration.digits 128 n).length
  · have hpow := Numeration.pow_le_value 128 (by decide) hlen
    rw [Numeration.value_digits (by decide)] at hpow
    have hseven : (2 : Nat) ^ (7 * ((Numeration.digits 128 n).length - 1)) <
        2 ^ w := by
      have hbase : (2 : Nat) ^ 7 = 128 := by decide
      rw [Nat.pow_mul, hbase]
      omega
    have := (Nat.pow_lt_pow_iff_right (by decide)).mp hseven
    omega
  · omega

/-- No encoding is a proper prefix of another. -/
theorem writeVarInt_of_begins {m n : Nat} (h : writeVarInt m <+: writeVarInt n) :
    m = n := by
  have hm : m < 2 ^ (m + n) :=
    Nat.lt_of_lt_of_le Nat.lt_two_pow_self
      (Nat.pow_le_pow_right (by decide) (Nat.le_add_right m n))
  have hn : n < 2 ^ (m + n) :=
    Nat.lt_of_lt_of_le Nat.lt_two_pow_self
      (Nat.pow_le_pow_right (by decide) (Nat.le_add_left n m))
  exact ((reads_varInt hm).eq_of_begins (reads_varInt hn) h).2

end Agrarian.Serialize
