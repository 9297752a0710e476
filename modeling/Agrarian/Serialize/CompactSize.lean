import Agrarian.Lib.Canonical
import Agrarian.Serialize.Stream

/-!
# Compact sizes are canonical

`ReadCompactSize` has four size classes.  Each of the three behind a marker
byte rejects the sizes that a shorter class holds, so that every size has one
encoding that is accepted, the one `WriteCompactSize` writes.
-/

namespace Agrarian.Serialize

open Agrarian.Lib.ByteCodec

/-- The encodings of a size, canonical or not: one in every class that can
hold it. -/
inductive CompactSizeForm (nSize : Nat) : List UInt8 → Prop
  | one : nSize < 253 → CompactSizeForm nSize (natLE 1 nSize)
  | two : nSize < 2 ^ 16 → CompactSizeForm nSize (253 :: natLE 2 nSize)
  | four : nSize < 2 ^ 32 → CompactSizeForm nSize (254 :: natLE 4 nSize)
  | eight : nSize < 2 ^ 64 → CompactSizeForm nSize (255 :: natLE 8 nSize)

/-! ## The writer -/

theorem writeCompactSize_one {n : Nat} (hn : n < 253) :
    writeCompactSize n = natLE 1 n := by
  rw [writeCompactSize, if_pos hn]

theorem writeCompactSize_two {n : Nat} (hlow : 253 ≤ n) (hn : n ≤ 0xFFFF) :
    writeCompactSize n = 253 :: natLE 2 n := by
  rw [writeCompactSize, if_neg (by omega), if_pos hn]

theorem writeCompactSize_four {n : Nat} (hlow : 0x10000 ≤ n)
    (hn : n ≤ 0xFFFFFFFF) : writeCompactSize n = 254 :: natLE 4 n := by
  rw [writeCompactSize, if_neg (by omega), if_neg (by omega), if_pos hn]

theorem writeCompactSize_eight {n : Nat} (hlow : 0x100000000 ≤ n) :
    writeCompactSize n = 255 :: natLE 8 n := by
  rw [writeCompactSize, if_neg (by omega), if_neg (by omega),
    if_neg (by omega)]

/-- What is written is an encoding, and no encoding is shorter. -/
theorem writeCompactSize_shortest {n : Nat} (hn : n < 2 ^ 64) :
    CompactSizeForm n (writeCompactSize n) ∧
      ∀ cs, CompactSizeForm n cs → cs ≠ writeCompactSize n →
        (writeCompactSize n).length < cs.length := by
  by_cases hone : n < 253
  · rw [writeCompactSize_one hone]
    refine ⟨.one hone, fun cs hcs hne => ?_⟩
    cases hcs with
    | one => exact absurd rfl hne
    | two => simp
    | four => simp
    | eight => simp
  by_cases htwo : n ≤ 0xFFFF
  · rw [writeCompactSize_two (by omega) htwo]
    refine ⟨.two (by omega), fun cs hcs hne => ?_⟩
    cases hcs with
    | one h => exact absurd h hone
    | two => exact absurd rfl hne
    | four => simp
    | eight => simp
  by_cases hfour : n ≤ 0xFFFFFFFF
  · rw [writeCompactSize_four (by omega) hfour]
    refine ⟨.four (by omega), fun cs hcs hne => ?_⟩
    cases hcs with
    | one h => exact absurd h hone
    | two h => omega
    | four => exact absurd rfl hne
    | eight => simp
  · rw [writeCompactSize_eight (by omega)]
    refine ⟨.eight hn, fun cs hcs hne => ?_⟩
    cases hcs with
    | one h => exact absurd h hone
    | two h => omega
    | four h => omega
    | eight => exact absurd rfl hne

/-! ## The reader -/

theorem run_readSizeLE_eq_some {width low n : Nat} {bs rest : List UInt8} :
    (readSizeLE width low).run bs = some (n, rest) ↔
      low ≤ n ∧ n < 256 ^ width ∧ bs = natLE width n ++ rest := by
  rw [readSizeLE, run_bind_eq_some]
  simp only [run_readNatLE_eq_some, run_guard_bind_eq_some, run_pure_eq_some]
  constructor
  · rintro ⟨n', mid, ⟨hlt, hbs⟩, hlow, rfl, rfl⟩
    exact ⟨hlow, hlt, hbs⟩
  · rintro ⟨hlow, hlt, hbs⟩
    exact ⟨n, rest, ⟨hlt, hbs⟩, hlow, rfl, rfl⟩

/-- A successful run read a size of at most `MAX_SIZE` as it is written. -/
theorem writeCompactSize_of_read {n : Nat} {bs rest : List UInt8}
    (h : readCompactSize.run bs = some (n, rest)) :
    n ≤ MAX_SIZE ∧ bs = writeCompactSize n ++ rest := by
  rw [readCompactSize, run_bind_eq_some] at h
  obtain ⟨chSize, tail, hbyte, h⟩ := h
  obtain rfl := run_readByte_eq_some.mp hbyte
  rw [run_bind_eq_some] at h
  obtain ⟨nSizeRet, mid, hclass, h⟩ := h
  obtain ⟨hmax, h⟩ := run_guard_bind_eq_some.mp h
  obtain ⟨rfl, rfl⟩ := run_pure_eq_some.mp h
  refine ⟨hmax, ?_⟩
  have hch := chSize.toNat_lt
  split at hclass
  · next hone =>
      have hlt : chSize.toNat < 253 := UInt8.lt_iff_toNat_lt.mp hone
      obtain ⟨rfl, rfl⟩ := run_pure_eq_some.mp hclass
      rw [writeCompactSize_one hlt]
      simp [natLE]
  split at hclass
  · next htwo =>
      obtain ⟨hlow, hlt, rfl⟩ := run_readSizeLE_eq_some.mp hclass
      rw [writeCompactSize_two hlow (by omega), htwo]
      rfl
  split at hclass
  · next hfour =>
      obtain ⟨hlow, hlt, rfl⟩ := run_readSizeLE_eq_some.mp hclass
      rw [writeCompactSize_four hlow (by omega), hfour]
      rfl
  · next hone htwo hfour =>
      obtain ⟨hlow, hlt, rfl⟩ := run_readSizeLE_eq_some.mp hclass
      have height : chSize = 255 := by
        rw [UInt8.lt_iff_toNat_lt] at hone
        rw [← UInt8.toNat_inj] at htwo hfour ⊢
        simp only [UInt8.reduceToNat] at hone htwo hfour ⊢
        omega
      rw [writeCompactSize_eight hlow, height]
      rfl

/-- A size class rejects what is below its bound. -/
theorem run_readSizeLE_of_lt {width low n : Nat} (hn : n < 256 ^ width)
    (hlow : n < low) (rest : List UInt8) :
    (readSizeLE width low).run (natLE width n ++ rest) = none := by
  rw [readSizeLE, StateT.run_bind, reads_natLE hn rest]
  show ((guard (low ≤ n) : Reader Unit) >>= fun _ => pure n).run rest = none
  rw [StateT.run_bind, guard, if_neg (by omega)]
  rfl

/-- What a size class rejects is rejected. -/
theorem run_readCompactSize_cons {chSize : UInt8} {tail : List UInt8}
    (h : (if chSize < 253 then pure chSize.toNat
      else if chSize = 253 then readSizeLE 2 253
      else if chSize = 254 then readSizeLE 4 0x10000
      else readSizeLE 8 0x100000000 : Reader Nat).run tail = none) :
    readCompactSize.run (chSize :: tail) = none := by
  rw [readCompactSize, StateT.run_bind]
  simp only [StateT.run, readByte, Option.bind_eq_bind, Option.bind_some]
  show (_ >>= _ : Reader Nat).run tail = none
  rw [StateT.run_bind, h]
  rfl

/-- Reading another encoding of a size than the written one fails. -/
theorem readCompactSize_of_form {n : Nat} {cs : List UInt8}
    (hcs : CompactSizeForm n cs) (hne : cs ≠ writeCompactSize n)
    (rest : List UInt8) : readCompactSize.run (cs ++ rest) = none := by
  cases hcs with
  | one h => exact absurd (writeCompactSize_one h).symm hne
  | two h =>
      have hlow : n < 253 := by
        by_contra hlow
        exact hne (writeCompactSize_two (by omega) (by omega)).symm
      refine run_readCompactSize_cons ?_
      rw [if_neg (by decide), if_pos rfl]
      exact run_readSizeLE_of_lt (by omega) hlow rest
  | four h =>
      have hlow : n < 0x10000 := by
        by_contra hlow
        exact hne (writeCompactSize_four (by omega) (by omega)).symm
      refine run_readCompactSize_cons ?_
      rw [if_neg (by decide), if_neg (by decide), if_pos rfl]
      exact run_readSizeLE_of_lt (by omega) hlow rest
  | eight h =>
      have hlow : n < 0x100000000 := by
        by_contra hlow
        exact hne (writeCompactSize_eight (by omega)).symm
      refine run_readCompactSize_cons ?_
      rw [if_neg (by decide), if_neg (by decide), if_neg (by decide)]
      exact run_readSizeLE_of_lt (by omega) hlow rest

/-- **Compact sizes are canonical.**  A stream is accepted exactly when it
starts with the shortest encoding of a size of at most `MAX_SIZE`; that size
is returned and the rest of the stream is left, and a stream that starts with
any other encoding of any size is rejected. -/
theorem readCompactSize_canonical :
    (∀ (bs rest : List UInt8) (n : Nat),
      readCompactSize.run bs = some (n, rest) ↔
        n ≤ MAX_SIZE ∧ bs = writeCompactSize n ++ rest) ∧
    (∀ n, n < 2 ^ 64 → CompactSizeForm n (writeCompactSize n) ∧
      ∀ cs, CompactSizeForm n cs → cs ≠ writeCompactSize n →
        (writeCompactSize n).length < cs.length ∧
          ∀ rest, readCompactSize.run (cs ++ rest) = none) := by
  refine ⟨fun bs rest n => ⟨writeCompactSize_of_read, ?_⟩, fun n hn => ?_⟩
  · rintro ⟨hmax, rfl⟩
    exact reads_compactSize hmax rest
  · obtain ⟨hform, hshortest⟩ := writeCompactSize_shortest hn
    exact ⟨hform, fun cs hcs hne =>
      ⟨hshortest cs hcs hne, readCompactSize_of_form hcs hne⟩⟩

end Agrarian.Serialize
