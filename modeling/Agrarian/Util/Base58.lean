import Agrarian.Lib.ByteCodec
import Agrarian.Lib.Radix
import Agrarian.Primitives
import Agrarian.Util.MoneyStr

/-!
# Base58

`EncodeBase58`, `DecodeBase58` and the variants with a checksum of `base58.cpp`.  Both directions
convert digit by digit into a buffer whose size is estimated from the length, and leave out the
leading zeros, which are written as leading ones.
-/

namespace Agrarian.Util

open Agrarian.Lib Agrarian.Lib.ByteCodec

/-- `pszBase58`. -/
def pszBase58 : List Char := "123456789ABCDEFGHJKLMNPQRSTUVWXYZabcdefghijkmnopqrstuvwxyz".toList

/-- `pszBase58[d]`. -/
def base58Char (d : Nat) : Char := pszBase58.getD d '1'

/-- `strchr(pszBase58, c) - pszBase58`. -/
def base58Index (c : Char) : Option Nat := pszBase58.idxOf? c

/-- How a decoding ends without a result: an assertion fails, or the text is refused. -/
inductive DecodeFailure
  | assertion
  | refused
  deriving DecidableEq

/-! ## The two directions -/

/-- The loop over the characters, up to a space: the buffer, the lowest digit first, and the text
behind. -/
def decodeChars : List Char → List Nat → Except DecodeFailure (List Nat × List Char)
  | [], b256 => .ok (b256, [])
  | c :: psz, b256 =>
      if isspace c then .ok (b256, c :: psz)
      else
        match base58Index c with
        | none => .error .refused
        | some ch =>
            let (b256, carry) := Radix.mulAdd 256 58 ch b256
            if carry ≠ 0 then .error .assertion else decodeChars psz b256

/-- `DecodeBase58` of a text up to its terminating zero. -/
def decodeBase58 (psz : List Char) : Except DecodeFailure (List UInt8) := do
  let psz := psz.dropWhile isspace
  let zeroes := (psz.takeWhile (· = '1')).length
  let psz := psz.dropWhile (· = '1')
  let (b256, psz) ← decodeChars psz (List.replicate (psz.length * 733 / 1000 + 1) 0)
  if psz.dropWhile isspace ≠ [] then throw .refused
  else return List.replicate zeroes 0 ++ (b256.reverse.dropWhile (· = 0)).map UInt8.ofNat

/-- `EncodeBase58`; `none` if the assertion fails. -/
def encodeBase58 (vch : List UInt8) : Option (List Char) :=
  let zeroes := (vch.takeWhile (· = 0)).length
  let bytes := vch.dropWhile (· = 0)
  (Radix.convert 58 256 (bytes.map UInt8.toNat)
    (List.replicate (bytes.length * 138 / 100 + 1) 0)).map fun b58 =>
      List.replicate zeroes '1' ++ (b58.reverse.dropWhile (· = 0)).map base58Char

section Check

variable (hash : List UInt8 → Uint256)

/-- The first four bytes of the hash in memory. -/
def checksum (vch : List UInt8) : List UInt8 := natLE 4 (hash vch).toNat

def encodeBase58Check (vchIn : List UInt8) : Option (List Char) :=
  encodeBase58 (vchIn ++ checksum hash vchIn)

def decodeBase58Check (psz : List Char) : Except DecodeFailure (List UInt8) := do
  let vchRet ← decodeBase58 psz
  if vchRet.length < 4 then throw .refused
  else if checksum hash (vchRet.take (vchRet.length - 4)) ≠ vchRet.drop (vchRet.length - 4) then
    throw .refused
  else return vchRet.take (vchRet.length - 4)

end Check

/-! ## The alphabet -/

theorem base58Index_char : ∀ d < 58, base58Index (base58Char d) = some d := by decide

theorem isspace_base58Char : ∀ d < 58, isspace (base58Char d) = false := by decide

theorem base58Char_eq_one_iff : ∀ d < 58, base58Char d = '1' ↔ d = 0 := by decide

theorem char_of_base58Index {c : Char} {d : Nat} (h : base58Index c = some d) :
    d < 58 ∧ base58Char d = c := by
  obtain ⟨hd, hc, -⟩ := List.idxOf?_eq_some_iff.mp h
  refine ⟨hd, ?_⟩
  rw [base58Char, List.getD_eq_getElem?_getD, List.getElem?_eq_getElem hd]
  exact hc

theorem exists_digit_of_mem {c : Char} (h : c ∈ pszBase58) : ∃ d < 58, base58Char d = c := by
  cases hindex : base58Index c with
  | none => exact absurd h (List.idxOf?_eq_none_iff.mp hindex)
  | some d => exact ⟨d, char_of_base58Index hindex⟩

/-! ## The sizes of the buffers -/

/-- A power is estimated by a power of the other base, of the exponent that a rational number
gives. -/
theorem pow_le_of_rational {a b p q : Nat} (hb : 1 < b) (hq : 0 < q)
    (h : a ^ q ≤ b ^ p) (n : Nat) : a ^ n ≤ b ^ (n * p / q + 1) := by
  have hlt : n * p < q * (n * p / q + 1) := Nat.lt_mul_div_succ _ hq
  have hpow : (a ^ n) ^ q ≤ (b ^ (n * p / q + 1)) ^ q := by
    calc (a ^ n) ^ q = (a ^ q) ^ n := by rw [← Nat.pow_mul, ← Nat.pow_mul, Nat.mul_comm]
      _ ≤ (b ^ p) ^ n := Nat.pow_le_pow_left h n
      _ = b ^ (n * p) := by rw [← Nat.pow_mul, Nat.mul_comm]
      _ ≤ b ^ (q * (n * p / q + 1)) := Nat.pow_le_pow_right (by omega) (Nat.le_of_lt hlt)
      _ = (b ^ (n * p / q + 1)) ^ q := by rw [← Nat.pow_mul, Nat.mul_comm]
  exact (Nat.pow_le_pow_iff_left (by omega)).mp hpow

theorem room_b58 (n : Nat) : 256 ^ n ≤ 58 ^ (n * 138 / 100 + 1) :=
  pow_le_of_rational (by decide) (by decide) (by norm_num) n

theorem room_b256 (n : Nat) : 58 ^ n ≤ 256 ^ (n * 733 / 1000 + 1) := by
  refine pow_le_of_rational (by decide) (by decide) ?_ n
  have hbits : 58 ^ 125 ≤ 2 ^ 733 := by decide +kernel
  calc 58 ^ 1000 = (58 ^ 125) ^ 8 := by rw [← Nat.pow_mul]
    _ ≤ (2 ^ 733) ^ 8 := Nat.pow_le_pow_left hbits 8
    _ = 256 ^ 733 := by
        rw [show (256 : Nat) = 2 ^ 8 from rfl, ← Nat.pow_mul, ← Nat.pow_mul, Nat.mul_comm]

/-! ## What the loops compute -/

/-- Characters of digits are converted, and the rest follows. -/
theorem decodeChars_append {digits : List Nat} (h : ∀ d ∈ digits, d < 58) (psz : List Char)
    (b256 : List Nat) :
    decodeChars (digits.map base58Char ++ psz) b256 =
      match Radix.convert 256 58 digits b256 with
      | none => .error .assertion
      | some b256 => decodeChars psz b256 := by
  induction digits generalizing b256 with
  | nil => rfl
  | cons d digits ih =>
      have hd := h d List.mem_cons_self
      rw [List.map_cons, List.cons_append, decodeChars, isspace_base58Char d hd,
        if_neg Bool.false_ne_true, base58Index_char d hd, Radix.convert]
      dsimp only
      split
      · rfl
      · exact ih (fun d hd => h d (List.mem_cons_of_mem _ hd)) _

/-- A text starts with characters of digits, up to another one. -/
theorem exists_digits (psz : List Char) :
    ∃ (digits : List Nat) (rest : List Char), (∀ d ∈ digits, d < 58) ∧
      psz = digits.map base58Char ++ rest ∧
      ∀ c ∈ rest.head?, isspace c = true ∨ base58Index c = none := by
  induction psz with
  | nil => exact ⟨[], [], fun d hd => (nomatch hd), rfl, fun c hc => (nomatch hc)⟩
  | cons c psz ih =>
      cases hindex : base58Index c with
      | none =>
          refine ⟨[], c :: psz, fun d hd => (nomatch hd), rfl, fun c' hc => Or.inr ?_⟩
          obtain rfl : c = c' := Option.some.inj hc
          exact hindex
      | some d =>
          obtain ⟨hd, hc⟩ := char_of_base58Index hindex
          obtain ⟨digits, rest, hdigits, rfl, hrest⟩ := ih
          exact ⟨d :: digits, rest, List.forall_mem_cons.mpr ⟨hd, hdigits⟩,
            by rw [List.map_cons, hc]; rfl, hrest⟩

/-- The buffer starts with zeros, and is large enough. -/
theorem convert_replicate {a b : Nat} (hb : 1 < b) {digits : List Nat} (h : ∀ d ∈ digits, d < a)
    {k : Nat} (hroom : a ^ digits.length ≤ b ^ k) :
    ∃ buffer, Radix.convert b a digits (List.replicate k 0) = some buffer ∧
      buffer.reverse.dropWhile (· = 0) =
        (Nat.digits b (Nat.ofDigits a digits.reverse)).reverse := by
  have hb' : 0 < b := by omega
  have hstart : (Nat.ofDigits b (List.replicate k 0) + 1) * a ^ digits.length ≤
      b ^ (List.replicate k 0).length := by
    rw [Nat.ofDigits_replicate_zero, Nat.zero_add, Nat.one_mul, List.length_replicate]
    exact hroom
  obtain ⟨buffer, hbuffer, hlt, hvalue⟩ := Radix.convert_eq hb' h
    (fun d hd => (List.eq_of_mem_replicate hd).symm ▸ hb') hstart
  rw [Nat.ofDigits_replicate_zero, Nat.zero_mul, Nat.zero_add] at hvalue
  exact ⟨buffer, hbuffer, by rw [Radix.dropWhile_reverse_eq hb hlt, hvalue]⟩

/-- What is counted and left out at the front. -/
theorem front_replicate {α : Type} [DecidableEq α] {x : α} {l : List α} (h : l.head? ≠ some x)
    (n : Nat) :
    ((List.replicate n x ++ l).takeWhile (· = x)).length = n ∧
      (List.replicate n x ++ l).dropWhile (· = x) = l := by
  induction n with
  | zero =>
      cases l with
      | nil => exact ⟨rfl, rfl⟩
      | cons y l =>
          have hne : y ≠ x := fun heq => h (heq ▸ rfl)
          simp [hne]
  | succ n ih => simpa [List.replicate_succ] using ih

/-- A list is some `x` and then something that does not start with `x`. -/
theorem exists_front {α : Type} [DecidableEq α] (x : α) (l : List α) :
    ∃ (n : Nat) (rest : List α), l = List.replicate n x ++ rest ∧ rest.head? ≠ some x := by
  induction l with
  | nil => exact ⟨0, [], rfl, fun h => (nomatch h)⟩
  | cons y l ih =>
      by_cases hy : y = x
      · obtain ⟨n, rest, rfl, hrest⟩ := ih
        exact ⟨n + 1, rest, by rw [hy]; rfl, hrest⟩
      · exact ⟨0, y :: l, rfl, fun h => hy (Option.some.inj h)⟩

/-- The text of some leading zeros and other bytes. -/
theorem encodeBase58_eq (zeroes : Nat) {bytes : List UInt8} (h : bytes.head? ≠ some 0) :
    encodeBase58 (List.replicate zeroes 0 ++ bytes) = some (List.replicate zeroes '1' ++
      (Nat.digits 58 (Nat.ofDigits 256 (bytes.map UInt8.toNat).reverse)).reverse.map
        base58Char) := by
  obtain ⟨hzeroes, hbytes⟩ := front_replicate h zeroes
  have hlt : ∀ d ∈ bytes.map UInt8.toNat, d < 256 := by
    intro d hd
    obtain ⟨byte, -, rfl⟩ := List.mem_map.mp hd
    exact byte.toNat_lt
  have hroom := room_b58 (bytes.map UInt8.toNat).length
  obtain ⟨b58, hconvert, hdigits⟩ := convert_replicate (by decide) hlt hroom
  rw [List.length_map] at hconvert
  unfold encodeBase58
  dsimp only
  rw [hzeroes, hbytes, hconvert, Option.map_some, hdigits]

/-- The bytes of some leading ones and characters of digits. -/
theorem decodeBase58_eq (zeroes : Nat) {digits : List Nat} (h : ∀ d ∈ digits, d < 58)
    (hhead : digits.head? ≠ some 0) :
    decodeBase58 (List.replicate zeroes '1' ++ digits.map base58Char) =
      .ok (List.replicate zeroes 0 ++
        (Nat.digits 256 (Nat.ofDigits 58 digits.reverse)).reverse.map UInt8.ofNat) := by
  have hone : (digits.map base58Char).head? ≠ some '1' := by
    cases digits with
    | nil => exact fun hnil => (nomatch hnil)
    | cons d digits =>
        intro hd
        have hzero := (base58Char_eq_one_iff d (h d List.mem_cons_self)).mp (Option.some.inj hd)
        exact hhead (congrArg some hzero)
  have hchars : ∀ c ∈ List.replicate zeroes '1' ++ digits.map base58Char, isspace c = false := by
    intro c hc
    rcases List.mem_append.mp hc with hc | hc
    · rw [List.eq_of_mem_replicate hc]
      rfl
    · obtain ⟨d, hd, rfl⟩ := List.mem_map.mp hc
      exact isspace_base58Char d (h d hd)
  have hspaces : (List.replicate zeroes '1' ++ digits.map base58Char).dropWhile isspace =
      List.replicate zeroes '1' ++ digits.map base58Char := by
    generalize List.replicate zeroes '1' ++ digits.map base58Char = psz at hchars
    cases psz with
    | nil => rfl
    | cons c psz =>
        exact List.dropWhile_cons_of_neg (by rw [hchars c List.mem_cons_self]; decide)
  obtain ⟨hzeroes, hrest⟩ := front_replicate hone zeroes
  obtain ⟨b256, hconvert, hbytes⟩ := convert_replicate (by decide) h (room_b256 digits.length)
  have hloop := decodeChars_append h [] (List.replicate (digits.length * 733 / 1000 + 1) 0)
  rw [hconvert, List.append_nil] at hloop
  unfold decodeBase58
  dsimp only
  rw [hspaces, hzeroes, hrest, List.length_map, hloop]
  rw [← hbytes]
  rfl

/-! ## Round trips -/

theorem map_toNat_ofNat {digits : List Nat} (h : ∀ d ∈ digits, d < 256) :
    (digits.map UInt8.ofNat).map UInt8.toNat = digits := by
  rw [List.map_map]
  conv_rhs => rw [← List.map_id digits]
  apply List.map_congr_left
  intro d hd
  have hlt := h d hd
  show (UInt8.ofNat d).toNat = d
  rw [UInt8.toNat_ofNat']
  omega

theorem map_ofNat_toNat (bytes : List UInt8) :
    (bytes.map UInt8.toNat).map UInt8.ofNat = bytes := by
  rw [List.map_map]
  conv_rhs => rw [← List.map_id bytes]
  exact List.map_congr_left fun byte _ => UInt8.ofNat_toNat

theorem decode_encode (vch : List UInt8) :
    ∃ str, encodeBase58 vch = some str ∧ decodeBase58 str = .ok vch := by
  obtain ⟨zeroes, bytes, rfl, hbytes⟩ := exists_front 0 vch
  have hlt : ∀ d ∈ bytes.map UInt8.toNat, d < 256 := by
    intro d hd
    obtain ⟨byte, -, rfl⟩ := List.mem_map.mp hd
    exact byte.toNat_lt
  have hhead : (bytes.map UInt8.toNat).head? ≠ some 0 := by
    intro hzero
    rw [List.head?_map] at hzero
    obtain ⟨byte, hbyte, hvalue⟩ := Option.map_eq_some_iff.mp hzero
    exact hbytes (hbyte.trans (congrArg some (UInt8.toNat_inj.mp hvalue)))
  obtain ⟨hdigits, hfront⟩ := Radix.reverse_digits (b := 58) (by decide)
    (Nat.ofDigits 256 (bytes.map UInt8.toNat).reverse)
  refine ⟨_, encodeBase58_eq zeroes hbytes, ?_⟩
  rw [decodeBase58_eq zeroes hdigits hfront, List.reverse_reverse, Nat.ofDigits_digits,
    Radix.digits_significant (by decide) hlt hhead, map_ofNat_toNat]

theorem encode_decode {str : List Char} (h : ∀ c ∈ str, c ∈ pszBase58) :
    ∃ vch, decodeBase58 str = .ok vch ∧ encodeBase58 vch = some str := by
  obtain ⟨zeroes, rest, rfl, hrest⟩ := exists_front '1' str
  -- the characters are those of digits
  obtain ⟨digits, hdigits, rfl⟩ : ∃ digits : List Nat, (∀ d ∈ digits, d < 58) ∧
      rest = digits.map base58Char := by
    obtain ⟨digits, behind, hdigits, hsplit, hstop⟩ := exists_digits rest
    cases behind with
    | nil => exact ⟨digits, hdigits, by rw [hsplit, List.append_nil]⟩
    | cons c behind =>
        have hc : c ∈ pszBase58 := h c (by simp [hsplit])
        obtain ⟨d, hd, rfl⟩ := exists_digit_of_mem hc
        rcases hstop _ rfl with hspace | hnone
        · exact absurd ((isspace_base58Char d hd).symm.trans hspace) Bool.false_ne_true
        · exact nomatch (base58Index_char d hd).symm.trans hnone
  have hhead : digits.head? ≠ some 0 := by
    intro hzero
    rw [List.head?_map, hzero] at hrest
    exact hrest rfl
  obtain ⟨hbytes, hfront⟩ := Radix.reverse_digits (b := 256) (by decide)
    (Nat.ofDigits 58 digits.reverse)
  refine ⟨_, decodeBase58_eq zeroes hdigits hhead, ?_⟩
  have hbyte : ((Nat.digits 256 (Nat.ofDigits 58 digits.reverse)).reverse.map
      UInt8.ofNat).head? ≠ some 0 := by
    intro hzero
    have hmap := congrArg List.head? (map_toNat_ofNat hbytes)
    rw [List.head?_map, hzero] at hmap
    exact hfront hmap.symm
  rw [encodeBase58_eq zeroes hbyte, map_toNat_ofNat hbytes, List.reverse_reverse,
    Nat.ofDigits_digits, Radix.digits_significant (by decide) hdigits hhead]

/-- No carry is left, whatever the text is. -/
theorem decodeBase58_ne_assertion (psz : List Char) : decodeBase58 psz ≠ .error .assertion := by
  unfold decodeBase58
  dsimp only
  generalize (psz.dropWhile isspace).takeWhile (· = '1') = ones
  generalize (psz.dropWhile isspace).dropWhile (· = '1') = psz
  obtain ⟨digits, rest, hdigits, rfl, hrest⟩ := exists_digits psz
  have hroom : 58 ^ digits.length ≤
      256 ^ ((digits.map base58Char ++ rest).length * 733 / 1000 + 1) := by
    rw [List.length_append, List.length_map]
    calc 58 ^ digits.length ≤ 58 ^ (digits.length + rest.length) :=
          Nat.pow_le_pow_right (by decide) (Nat.le_add_right _ _)
      _ ≤ _ := room_b256 _
  obtain ⟨b256, hconvert, -⟩ := convert_replicate (by decide) hdigits hroom
  have hstop : decodeChars rest b256 = .ok (b256, rest) ∨
      decodeChars rest b256 = .error .refused := by
    cases rest with
    | nil => exact Or.inl rfl
    | cons c rest =>
        rw [decodeChars]
        by_cases hspace : isspace c = true
        · rw [if_pos hspace]
          exact Or.inl rfl
        · have hnone := (hrest c rfl).resolve_left hspace
          rw [if_neg hspace, hnone]
          exact Or.inr rfl
  rw [decodeChars_append hdigits, hconvert]
  dsimp only
  rcases hstop with hstop | hstop
  · rw [hstop]
    show (if rest.dropWhile isspace ≠ [] then Except.error DecodeFailure.refused
      else Except.ok _) ≠ _
    split
    · exact fun h => (nomatch h)
    · exact fun h => (nomatch h)
  · rw [hstop]
    exact fun h => (nomatch h)

/-- **Base58.** Both directions are inverse to each other, also with a checksum, and no assertion
fails. -/
theorem base58_codec (hash : List UInt8 → Uint256) :
    (∀ vch, ∃ str, encodeBase58 vch = some str ∧ decodeBase58 str = .ok vch) ∧
      (∀ vch, ∃ str, encodeBase58Check hash vch = some str ∧
        decodeBase58Check hash str = .ok vch) ∧
      (∀ psz, decodeBase58 psz ≠ .error .assertion) ∧
      ∀ str : List Char, (∀ c ∈ str, c ∈ pszBase58) → ∀ vch, decodeBase58 str = .ok vch →
        encodeBase58 vch = some str := by
  refine ⟨decode_encode, fun vch => ?_, decodeBase58_ne_assertion, fun str h vch hvch => ?_⟩
  · obtain ⟨str, hencode, hdecode⟩ := decode_encode (vch ++ checksum hash vch)
    refine ⟨str, hencode, ?_⟩
    have hlength : (checksum hash vch).length = 4 := length_natLE 4 _
    have hall : (vch ++ checksum hash vch).length - 4 = vch.length := by
      rw [List.length_append, hlength, Nat.add_sub_cancel]
    have hlong : ¬ (vch ++ checksum hash vch).length < 4 := by
      rw [List.length_append, hlength]
      omega
    unfold decodeBase58Check
    rw [hdecode]
    show (if _ then _ else _) = _
    rw [if_neg hlong, hall, List.take_left, List.drop_left, if_neg (not_not_intro rfl)]
    rfl
  · obtain ⟨vch', hdecode, hencode⟩ := encode_decode h
    obtain rfl : vch' = vch := Except.ok.inj (hdecode.symm.trans hvch)
    exact hencode

end Agrarian.Util
