import Agrarian.Lib.Forest

/-!
# The block index

The tree of block headers (`chain.h`), with the sets that `main.cpp` keeps
about it: the candidates for the tip of the active chain, ordered by
`CBlockIndexWorkComparator`, the blocks whose data came before that of an
ancestor, and the active chain.

A block is known by its pointer, of some linearly ordered type, which stands
for its hash too.  Entries of the index are never removed and never get
another parent.  The active chain is the path to its tip, as `SetTip` fills
it in, and skip pointers are left out: `GetAncestor` is the block of a
height on the path.

Validity levels other than `BLOCK_VALID_TRANSACTIONS` are never asked for
here (every block in the index is `BLOCK_VALID_TREE`), and
`pindexBestInvalid` only serves warnings; both are left out.
-/

namespace Agrarian.BlockIndex

open Agrarian.Lib.Forest

structure CBlockIndex (B : Type) where
  pprev : Option B := none
  nHeight : Nat := 0
  nChainWork : Nat := 0
  nTx : Nat := 0
  /-- Number of transactions in the chain up to and including this block, in
  32 bits; not zero if and only if transactions for this block and all its
  parents are available. -/
  nChainTx : Nat := 0
  nSequenceId : Nat := 0
  /-- `BLOCK_HAVE_DATA`. -/
  haveData : Bool := false
  /-- The validity level is `BLOCK_VALID_TRANSACTIONS` or higher. -/
  validTransactions : Bool := false
  /-- `BLOCK_FAILED_VALID`. -/
  failedValid : Bool := false
  /-- `BLOCK_FAILED_CHILD`. -/
  failedChild : Bool := false

namespace CBlockIndex

variable {B : Type}

/-- `nStatus & BLOCK_FAILED_MASK`. -/
def failed (e : CBlockIndex B) : Bool := e.failedValid || e.failedChild

/-- `IsValid(BLOCK_VALID_TRANSACTIONS)`, the default of `IsValid`. -/
def isValid (e : CBlockIndex B) : Bool := !e.failed && e.validTransactions

/-- An entry without its failure marks. -/
def unmarked (e : CBlockIndex B) : CBlockIndex B :=
  { e with failedValid := false, failedChild := false }

end CBlockIndex

/-- The globals of `main.cpp`. -/
structure State (B : Type) where
  mapBlockIndex : List B := []
  index : B → CBlockIndex B := fun _ => {}
  setBlockIndexCandidates : List B := []
  mapBlocksUnlinked : List (B × B) := []
  /-- `chainActive.Tip()`. -/
  tip : Option B := none
  nBlockSequenceId : Nat := 1

namespace State

variable {B : Type} [LinearOrder B]

/-- Change one entry of the index. -/
def modify (s : State B) (b : B) (f : CBlockIndex B → CBlockIndex B) :
    State B :=
  { s with index := Function.update s.index b (f (s.index b)) }

/-- `CBlockIndexWorkComparator`. -/
def worse (s : State B) (pa pb : B) : Bool :=
  if (s.index pa).nChainWork > (s.index pb).nChainWork then false
  else if (s.index pa).nChainWork < (s.index pb).nChainWork then true
  else if (s.index pa).nSequenceId < (s.index pb).nSequenceId then false
  else if (s.index pa).nSequenceId > (s.index pb).nSequenceId then true
  else if pa < pb then false
  else if pa > pb then true
  else false

/-- Worse than the tip of the active chain; without one nothing is. -/
def worseThanTip (s : State B) (b : B) : Bool :=
  match s.tip with
  | none => false
  | some t => s.worse b t

def insertCandidate (s : State B) (b : B) : State B :=
  { s with setBlockIndexCandidates := s.setBlockIndexCandidates.insert b }

def eraseCandidate (s : State B) (b : B) : State B :=
  { s with setBlockIndexCandidates :=
      s.setBlockIndexCandidates.filter (· ≠ b) }

def parent (s : State B) : B → Option B := fun b => (s.index b).pprev

def height (s : State B) : B → Nat := fun b => (s.index b).nHeight

/-- The path from the genesis block. -/
def path (s : State B) (b : B) : List B := pathTo s.parent (s.height b) b

def chainActive (s : State B) : List B :=
  match s.tip with
  | none => []
  | some t => s.path t

/-- `chainActive.Contains`. -/
def contains (s : State B) (b : B) : Bool :=
  s.chainActive[s.height b]? == some b

/-! ## The comparator -/

/-- What the comparator compares, from the most important on. -/
def rankKey (s : State B) (b : B) : Nat ×ₗ Natᵒᵈ ×ₗ Bᵒᵈ :=
  toLex ((s.index b).nChainWork,
    toLex (OrderDual.toDual (s.index b).nSequenceId, OrderDual.toDual b))

theorem worse_iff (s : State B) (a b : B) :
    s.worse a b = true ↔ s.rankKey a < s.rankKey b := by
  unfold worse rankKey
  rw [Prod.Lex.toLex_lt_toLex, Prod.Lex.toLex_lt_toLex]
  simp only [OrderDual.toDual_lt_toDual, OrderDual.toDual_inj]
  rcases lt_trichotomy (s.index a).nChainWork (s.index b).nChainWork with
    hwork | hwork | hwork
  · simp [hwork, hwork.le]
  · rcases lt_trichotomy (s.index a).nSequenceId (s.index b).nSequenceId with
      hseq | hseq | hseq
    · simp [hwork, hseq, hseq.le, hseq.ne]
    · rcases lt_trichotomy a b with hptr | hptr | hptr
      · simp [hwork, hseq, hptr, hptr.le]
      · simp [hptr]
      · simp [hwork, hseq, hptr, hptr.not_gt]
    · simp [hwork, hseq, hseq.not_gt]
  · simp [hwork, hwork.not_gt, hwork.ne']

theorem worse_irrefl (s : State B) (a : B) : s.worse a a = false := by
  rw [Bool.eq_false_iff, ne_eq, worse_iff]
  exact lt_irrefl _

theorem not_worse_iff (s : State B) (a b : B) :
    s.worse a b = false ↔ s.rankKey b ≤ s.rankKey a := by
  rw [← not_lt, ← worse_iff, Bool.not_eq_true]

theorem not_worse_trans {s : State B} {a b c : B} (hab : s.worse a b = false)
    (hbc : s.worse b c = false) : s.worse a c = false := by
  rw [not_worse_iff] at *
  exact hbc.trans hab

/-- The comparator is total: blocks it cannot tell apart are the same. -/
theorem eq_of_not_worse {s : State B} {a b : B} (hab : s.worse a b = false)
    (hba : s.worse b a = false) : a = b := by
  rw [not_worse_iff] at *
  have hkey := le_antisymm hba hab
  have hptr := (Prod.ext_iff.mp (Prod.ext_iff.mp hkey).2).2
  exact hptr

theorem not_worse_of_worse {s : State B} {a b : B}
    (hab : s.worse a b = true) : s.worse b a = false := by
  rw [not_worse_iff]
  exact ((worse_iff s a b).mp hab).le

/-- `worse` reads only work and sequence ids. -/
theorem worse_congr {s s' : State B} {a b : B}
    (ha : (s'.index a).nChainWork = (s.index a).nChainWork ∧
      (s'.index a).nSequenceId = (s.index a).nSequenceId)
    (hb : (s'.index b).nChainWork = (s.index b).nChainWork ∧
      (s'.index b).nSequenceId = (s.index b).nSequenceId) :
    s'.worse a b = s.worse a b := by
  unfold worse
  rw [ha.1, ha.2, hb.1, hb.2]

/-! ## Candidates -/

theorem mem_insertCandidate {s : State B} {a b : B} :
    a ∈ (s.insertCandidate b).setBlockIndexCandidates ↔
      a = b ∨ a ∈ s.setBlockIndexCandidates :=
  List.mem_insert_iff

theorem mem_eraseCandidate {s : State B} {a b : B} :
    a ∈ (s.eraseCandidate b).setBlockIndexCandidates ↔
      a ∈ s.setBlockIndexCandidates ∧ a ≠ b := by
  simp [eraseCandidate]

/-! ## The tree -/

/-- Parents are in the index, one lower than their children. -/
def TreeInv (s : State B) : Prop :=
  Ranked s.parent (· ∈ s.mapBlockIndex) s.height

omit [LinearOrder B] in
theorem mem_path {s : State B} (htree : s.TreeInv) {a b : B}
    (hb : b ∈ s.mapBlockIndex) : a ∈ s.path b ↔ Ancestor s.parent a b :=
  mem_pathTo htree hb

/-- A tip is in the index. -/
def TipIndexed (s : State B) : Prop :=
  ∀ t, s.tip = some t → t ∈ s.mapBlockIndex

/-- **The active chain is made of the tip's ancestors.** -/
theorem contains_iff {s : State B} (htree : s.TreeInv)
    (htip : s.TipIndexed) {b : B} :
    s.contains b = true ↔ ∃ t, s.tip = some t ∧ Ancestor s.parent b t := by
  unfold contains chainActive
  cases h : s.tip with
  | none => simp
  | some t =>
      rw [beq_iff_eq]
      show (s.path t)[s.height b]? = some b ↔ _
      rw [path, getElem?_pathTo htree (htip t h)]
      constructor
      · intro hb
        exact ⟨t, rfl, hb⟩
      · rintro ⟨t', ht', hb⟩
        rw [Option.some.inj ht']
        exact hb

end State

end Agrarian.BlockIndex
