import Mathlib

/-!
# Ring buffers

A buffer of fixed size that holds the end of what has been written to it: the
entry at position `x` of a sequence lies at `x` modulo the size.  A block that
does not go past the end of the buffer is written and read in one piece.
-/

namespace Agrarian.Lib.RingBuffer

variable {α : Type*}

/-- A block of entries put over those at a position. -/
def overwrite (buf : List α) (pos : Nat) (block : List α) : List α :=
  buf.take pos ++ block ++ buf.drop (pos + block.length)

/-- A block of entries from a position on. -/
def slice (l : List α) (pos n : Nat) : List α := (l.drop pos).take n

theorem getElem?_slice (l : List α) (pos n i : Nat) :
    (slice l pos n)[i]? = if i < n then l[pos + i]? else none := by
  unfold slice
  rw [List.getElem?_take]
  split_ifs
  · rw [List.getElem?_drop]
  · rfl

theorem length_slice (l : List α) (pos n : Nat) :
    (slice l pos n).length = min n (l.length - pos) := by
  unfold slice
  rw [List.length_take, List.length_drop]

/-- A block is followed by the next one. -/
theorem slice_add (l : List α) (pos n k : Nat) :
    slice l pos (n + k) = slice l pos n ++ slice l (pos + n) k := by
  unfold slice
  rw [List.take_add, List.drop_drop]

section Overwrite

variable {buf block : List α} {pos : Nat}
  (hfits : pos + block.length ≤ buf.length)

include hfits

theorem length_overwrite : (overwrite buf pos block).length = buf.length := by
  unfold overwrite
  rw [List.length_append, List.length_append, List.length_take, List.length_drop]
  omega

theorem getElem?_overwrite (i : Nat) :
    (overwrite buf pos block)[i]? =
      if i < pos then buf[i]?
      else if i < pos + block.length then block[i - pos]?
      else buf[i]? := by
  have htake : (buf.take pos).length = pos := by
    rw [List.length_take]
    omega
  have hleft : (buf.take pos ++ block).length = pos + block.length := by
    rw [List.length_append, htake]
  unfold overwrite
  split_ifs with hbefore hinside
  · rw [List.getElem?_append_left (by omega),
      List.getElem?_append_left (by omega), List.getElem?_take_of_lt hbefore]
  · rw [List.getElem?_append_left (by omega),
      List.getElem?_append_right (by omega), htake]
  · rw [List.getElem?_append_right (by omega), hleft, List.getElem?_drop]
    congr 1
    omega

end Overwrite

/-- The buffer holds the end of the first `n` entries of `src`. -/
def Holds (buf src : List α) (n : Nat) : Prop :=
  ∀ x, x < n → n ≤ x + buf.length → buf[x % buf.length]? = src[x]?

theorem holds_zero (buf src : List α) : Holds buf src 0 :=
  fun _ hx => absurd hx (Nat.not_lt_zero _)

/-- Within a turn around the buffer the places are the positions. -/
theorem mod_add_of_lt {B x i : Nat} (h : x % B + i < B) :
    (x + i) % B = x % B + i := by
  rw [Nat.add_mod, Nat.mod_eq_of_lt (b := B)]
  · rw [Nat.mod_eq_of_lt (a := i) (by omega)]
  · rw [Nat.mod_eq_of_lt (a := i) (by omega)]
    exact h

/-- **Writing on.** -/
theorem Holds.overwrite {buf src block : List α} {n : Nat}
    (h : Holds buf src n) (hblock : ∀ i, i < block.length → block[i]? = src[n + i]?)
    (hfits : n % buf.length + block.length ≤ buf.length) :
    Holds (overwrite buf (n % buf.length) block) src (n + block.length) := by
  intro x hx hwindow
  rw [length_overwrite hfits] at hwindow ⊢
  rw [getElem?_overwrite hfits]
  have hpos : 0 < buf.length := by omega
  rcases Nat.lt_or_ge x n with hold | hnew
  · -- an older entry: its place is not among those written now
    have hplace := h x hold (by omega)
    have hout : ¬ (n % buf.length ≤ x % buf.length ∧
        x % buf.length < n % buf.length + block.length) := by
      rintro ⟨hlow, hhigh⟩
      have hsame : (n + (x % buf.length - n % buf.length)) % buf.length =
          x % buf.length := by
        rw [mod_add_of_lt (by omega)]
        omega
      have hdiv : buf.length ∣ n + (x % buf.length - n % buf.length) - x :=
        (Nat.modEq_iff_dvd' (by omega)).mp hsame.symm
      have hle := Nat.le_of_dvd (by omega) hdiv
      omega
    rw [hplace]
    split_ifs with hbefore hinside
    · rfl
    · exact absurd ⟨by omega, hinside⟩ hout
    · rfl
  · have hplace : x % buf.length = n % buf.length + (x - n) := by
      rw [← mod_add_of_lt (by omega)]
      congr 1
      omega
    rw [hplace, if_neg (by omega), if_pos (by omega), Nat.add_sub_cancel_left,
      hblock _ (by omega)]
    congr 1
    omega

/-- **Reading back.**  A block of the last entries that lies in one piece. -/
theorem Holds.slice {buf src : List α} {n x k : Nat} (h : Holds buf src n)
    (hend : x + k ≤ n) (hthere : n ≤ x + buf.length)
    (hfits : x % buf.length + k ≤ buf.length) :
    slice buf (x % buf.length) k = slice src x k := by
  apply List.ext_getElem?
  intro i
  rw [getElem?_slice, getElem?_slice]
  split_ifs with hi
  · rw [← mod_add_of_lt (by omega)]
    exact h (x + i) (by omega) (by omega)
  · rfl

end Agrarian.Lib.RingBuffer
