import Agrarian.Lib.ByteCodec

/-!
# Canonical encodings

The other half of a codec: what a reader must have seen when it succeeded.
The rules below turn a successful run of a reader into the bytes it took, so
that a reader whose every branch reads a canonical form is shown to accept
canonical forms only.  A reader with a right encoding for each value also
makes these encodings a prefix code.
-/

namespace Agrarian.Lib.ByteCodec

section Combinators

variable {α β : Type}

theorem run_pure_eq_some {a b : α} {bs rest : List UInt8} :
    (pure a : Reader α).run bs = some (b, rest) ↔ a = b ∧ bs = rest := by
  rw [StateT.run_pure]
  simp

/-- Both parts of a `do` block succeeded, one after the other. -/
theorem run_bind_eq_some {r : Reader α} {f : α → Reader β}
    {bs rest : List UInt8} {b : β} :
    (r >>= f).run bs = some (b, rest) ↔
      ∃ a mid, r.run bs = some (a, mid) ∧ (f a).run mid = some (b, rest) := by
  rw [StateT.run_bind]
  cases hr : r.run bs with
  | none => simp
  | some s =>
      obtain ⟨a, mid⟩ := s
      simp

theorem run_map_eq_some {r : Reader α} {f : α → β} {bs rest : List UInt8}
    {b : β} :
    (f <$> r).run bs = some (b, rest) ↔
      ∃ a, r.run bs = some (a, rest) ∧ f a = b := by
  rw [StateT.run_map]
  cases hr : r.run bs with
  | none => simp
  | some s =>
      obtain ⟨a, mid⟩ := s
      constructor
      · intro h
        obtain ⟨hval, hrest⟩ := Prod.mk.inj (Option.some.inj h)
        exact ⟨a, by rw [← hrest], hval⟩
      · rintro ⟨a', h, rfl⟩
        obtain ⟨rfl, rfl⟩ := Prod.mk.inj (Option.some.inj h)
        rfl

/-- What follows a check ran on the stream the check was made on. -/
theorem run_guard_bind_eq_some {p : Prop} [Decidable p] {f : Unit → Reader α}
    {bs rest : List UInt8} {a : α} :
    ((guard p : Reader Unit) >>= f).run bs = some (a, rest) ↔
      p ∧ (f ()).run bs = some (a, rest) := by
  rw [run_bind_eq_some]
  by_cases hp : p
  · have hrun : (guard p : Reader Unit).run bs = some ((), bs) := by
      rw [guard, if_pos hp]
      rfl
    rw [hrun]
    constructor
    · rintro ⟨⟨⟩, mid, hmid, hrest⟩
      obtain ⟨-, rfl⟩ := Prod.mk.inj (Option.some.inj hmid)
      exact ⟨hp, hrest⟩
    · rintro ⟨-, hrest⟩
      exact ⟨(), bs, rfl, hrest⟩
  · have hrun : (guard p : Reader Unit).run bs = none := by
      rw [guard, if_neg hp]
      rfl
    rw [hrun]
    simp [hp]

end Combinators

/-! ## Bytes and numbers -/

theorem run_readByte_eq_some {bs rest : List UInt8} {b : UInt8} :
    readByte.run bs = some (b, rest) ↔ bs = b :: rest := by
  cases bs with
  | nil =>
      constructor
      · intro h
        cases h
      · intro h
        cases h
  | cons c bs =>
      show some (c, bs) = some (b, rest) ↔ _
      simp

theorem run_readBytes_eq_some {n : Nat} {bs rest cs : List UInt8} :
    (readBytes n).run bs = some (cs, rest) ↔
      cs.length = n ∧ bs = cs ++ rest := by
  show readBytes n bs = some (cs, rest) ↔ _
  rw [readBytes]
  split
  · next hshort =>
      constructor
      · intro h
        cases h
      · rintro ⟨hlen, rfl⟩
        rw [List.length_append] at hshort
        omega
  · next hlong =>
      constructor
      · intro h
        obtain ⟨rfl, rfl⟩ := Prod.mk.inj (Option.some.inj h)
        refine ⟨?_, (List.take_append_drop n bs).symm⟩
        rw [List.length_take]
        omega
      · rintro ⟨rfl, rfl⟩
        rw [List.take_left, List.drop_left]

theorem ofLE_lt (bs : List UInt8) : ofLE bs < 256 ^ bs.length := by
  induction bs with
  | nil => decide
  | cons b bs ih =>
      have hb := b.toNat_lt
      rw [ofLE, List.length_cons, Nat.pow_succ]
      omega

/-- The bytes of a number are determined by it and their count. -/
theorem natLE_ofLE (bs : List UInt8) : natLE bs.length (ofLE bs) = bs := by
  induction bs with
  | nil => rfl
  | cons b bs ih =>
      have hb := b.toNat_lt
      have hlow : UInt8.ofNat (b.toNat + 256 * ofLE bs) = b := by
        refine UInt8.toNat_inj.mp ?_
        rw [UInt8.toNat_ofNat']
        omega
      have hhigh : (b.toNat + 256 * ofLE bs) / 256 = ofLE bs := by omega
      rw [List.length_cons, ofLE, natLE, hlow, hhigh, ih]

theorem run_readNatLE_eq_some {width n : Nat} {bs rest : List UInt8} :
    (readNatLE width).run bs = some (n, rest) ↔
      n < 256 ^ width ∧ bs = natLE width n ++ rest := by
  rw [readNatLE, run_map_eq_some]
  constructor
  · rintro ⟨cs, hcs, rfl⟩
    obtain ⟨rfl, rfl⟩ := run_readBytes_eq_some.mp hcs
    exact ⟨ofLE_lt cs, by rw [natLE_ofLE]⟩
  · rintro ⟨hn, rfl⟩
    refine ⟨natLE width n, ?_, ofLE_natLE hn⟩
    exact run_readBytes_eq_some.mpr ⟨length_natLE width n, rfl⟩

/-! ## Shortest form -/

/-- The bytes of a number up to the last one that is not zero. -/
def shortLE (n : Nat) : List UInt8 := (Nat.digits 256 n).map UInt8.ofNat

theorem ofLE_eq_ofDigits (bs : List UInt8) :
    ofLE bs = Nat.ofDigits 256 (bs.map UInt8.toNat) := by
  induction bs with
  | nil => rfl
  | cons b bs ih => rw [ofLE, List.map_cons, Nat.ofDigits_cons, ih]

theorem ofLE_concat (bs : List UInt8) (b : UInt8) :
    ofLE (bs ++ [b]) = ofLE bs + 256 ^ bs.length * b.toNat := by
  rw [ofLE_eq_ofDigits, List.map_append, Nat.ofDigits_append, List.length_map,
    ← ofLE_eq_ofDigits]
  simp

theorem map_toNat_shortLE (n : Nat) : (shortLE n).map UInt8.toNat = Nat.digits 256 n := by
  rw [shortLE, List.map_map]
  refine (List.map_congr_left fun d hd => ?_).trans (List.map_id _)
  exact UInt8.toNat_ofNat_of_lt' (Nat.digits_lt_base (by decide) hd)

theorem ofLE_shortLE (n : Nat) : ofLE (shortLE n) = n := by
  rw [ofLE_eq_ofDigits, map_toNat_shortLE, Nat.ofDigits_digits]

theorem length_shortLE_le_iff {n k : Nat} : (shortLE n).length ≤ k ↔ n < 256 ^ k := by
  rw [shortLE, List.length_map, Nat.digits_length_le_iff (by decide)]

/-- A vector that does not end in zero is the shortest one of its value. -/
theorem shortLE_ofLE_concat (bs : List UInt8) {b : UInt8} (hb : b ≠ 0) :
    shortLE (ofLE (bs ++ [b])) = bs ++ [b] := by
  have hdigits : Nat.digits 256 (ofLE (bs ++ [b])) = (bs ++ [b]).map UInt8.toNat := by
    rw [ofLE_eq_ofDigits]
    refine Nat.digits_ofDigits 256 (by decide) _ ?_ ?_
    · intro d hd
      obtain ⟨byte, -, rfl⟩ := List.mem_map.mp hd
      exact byte.toNat_lt
    · intro hne
      simpa using fun h => hb (UInt8.toNat_inj.mp h)
  rw [shortLE, hdigits, List.map_map]
  exact (List.map_congr_left fun b _ => UInt8.ofNat_toNat).trans (List.map_id _)

theorem ne_zero_of_shortLE {n : Nat} {bs : List UInt8} {b : UInt8}
    (h : shortLE n = bs ++ [b]) : n ≠ 0 := by
  rintro rfl
  exact List.append_ne_nil_of_right_ne_nil bs (List.cons_ne_nil b []) h.symm

/-- The shortest form of a number that is not zero ends in a byte that is not zero. -/
theorem exists_shortLE_eq_concat {n : Nat} (hn : n ≠ 0) :
    ∃ bs b, shortLE n = bs ++ [b] ∧ b ≠ 0 := by
  rcases List.eq_nil_or_concat' (shortLE n) with hnil | ⟨bs, b, hconcat⟩
  · have hvalue := ofLE_shortLE n
    rw [hnil] at hvalue
    exact absurd hvalue.symm hn
  · refine ⟨bs, b, hconcat, ?_⟩
    rintro rfl
    have hlast := Nat.getLast_digit_ne_zero 256 hn
    have hdigits := map_toNat_shortLE n
    rw [hconcat, List.map_append] at hdigits
    simp only [← hdigits] at hlast
    simp at hlast

/-! ## Prefix codes -/

section PrefixCode

variable {α : Type} {r : Reader α} {bs cs : List UInt8} {a b : α}

/-- **Prefix code.**  Two encodings of one reader of which one begins the
other are the same encoding of the same value. -/
theorem Reads.eq_of_begins (ha : Reads r bs a) (hb : Reads r cs b)
    (h : bs <+: cs) : bs = cs ∧ a = b := by
  obtain ⟨rest, rfl⟩ := h
  have hfirst := ha rest
  have hsecond := hb []
  rw [List.append_nil, hfirst] at hsecond
  obtain ⟨hval, hrest⟩ := Prod.mk.inj (Option.some.inj hsecond)
  exact ⟨by rw [hrest, List.append_nil], hval⟩

/-- Different values have different encodings. -/
theorem Reads.injective (ha : Reads r bs a) (hb : Reads r bs b) : a = b :=
  (ha.eq_of_begins hb (List.prefix_refl bs)).2

end PrefixCode

end Agrarian.Lib.ByteCodec
