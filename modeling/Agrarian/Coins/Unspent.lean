import Agrarian.Coins.Undo

/-!
# The unspent outputs of a chain

Which outputs are unspent after the transactions of a chain, whatever its
blocks: a transaction adds its outputs, in place of those of an earlier one
with the same hash, and takes those its inputs name.  The transactions come
newest first.
-/

namespace Agrarian.Coins

/-- The transaction has the output, and its outpoint can be spent. -/
def createsOutput (tx : CTransaction) (out : COutPoint) : Bool :=
  tx.hash = out.hash && (CCoins.fromTx tx 0).isAvailable out.n

def spendsOutput (tx : CTransaction) (out : COutPoint) : Bool :=
  spendsOutputs tx && tx.vin.any fun txin => txin.prevout = out

def unspentIn : List CTransaction → COutPoint → Bool
  | [], _ => false
  | tx :: older, out =>
      if tx.hash = out.hash then createsOutput tx out
      else !spendsOutput tx out && unspentIn older out

/-- The newest transaction with the hash of the outpoint has the output. -/
def createdIn : List CTransaction → COutPoint → Bool
  | [], _ => false
  | tx :: older, out =>
      if tx.hash = out.hash then createsOutput tx out
      else createdIn older out

theorem unspentIn_append (newer older : List CTransaction) (out : COutPoint)
    (h : ∀ tx ∈ newer, spendsOutput tx out = false) :
    unspentIn (newer ++ older) out =
      if ∃ tx ∈ newer, tx.hash = out.hash then createdIn newer out
      else unspentIn older out := by
  induction newer with
  | nil => simp
  | cons tx newer ih =>
      have hrest := ih fun tx' htx' => h tx' (List.mem_cons_of_mem _ htx')
      have htx := h tx List.mem_cons_self
      simp only [List.cons_append, unspentIn, createdIn]
      by_cases hhash : tx.hash = out.hash
      · have hsome : ∃ tx' ∈ tx :: newer, tx'.hash = out.hash :=
          ⟨tx, List.mem_cons_self, hhash⟩
        rw [if_pos hhash, if_pos hsome, if_pos hhash]
      · simp [hhash, htx, hrest]

theorem unspentIn_of_not_created {txs : List CTransaction} {out : COutPoint}
    (h : ∀ tx ∈ txs, createsOutput tx out = false) :
    unspentIn txs out = false := by
  induction txs with
  | nil => rfl
  | cons tx older ih =>
      have hrest := ih fun tx' htx' => h tx' (List.mem_cons_of_mem _ htx')
      simp [unspentIn, h tx List.mem_cons_self, hrest]

/-- A spent output stays spent as long as no transaction has its hash
again. -/
theorem unspentIn_of_spent {newer older : List CTransaction}
    {tx : CTransaction} {out : COutPoint} (hspends : spendsOutput tx out = true)
    (htx : tx.hash ≠ out.hash) (h : ∀ tx' ∈ newer, tx'.hash ≠ out.hash) :
    unspentIn (newer ++ tx :: older) out = false := by
  induction newer with
  | nil => simp [unspentIn, htx, hspends]
  | cons tx' newer ih =>
      have hrest := ih fun tx'' htx'' => h tx'' (List.mem_cons_of_mem _ htx'')
      simp [unspentIn, h tx' List.mem_cons_self, hrest]

/-! ## A view of coins -/

theorem isAvailable_eq_getD (c : CCoins) (n : Nat) :
    c.isAvailable n = (!(c.vout.getD n CTxOut.null).isNull &&
      !(c.vout.getD n CTxOut.null).isZerocoinMint) := by
  unfold CCoins.isAvailable
  rw [List.getD_eq_getElem?_getD]
  cases c.vout[n]? with
  | none => rfl
  | some out => rfl

theorem isAvailable_of_isPruned {c : CCoins} (h : c.isPruned = true)
    (n : Nat) : c.isAvailable n = false := by
  unfold CCoins.isAvailable
  cases hget : c.vout[n]? with
  | none => rfl
  | some out =>
      have hnull := List.all_eq_true.mp h out (List.mem_of_getElem? hget)
      simp [hnull]

theorem isAvailable_congr {a b : CCoins} (h : CCoins.Same a b) (n : Nat) :
    a.isAvailable n = b.isAvailable n := by
  rcases h with ⟨ha, hb⟩ | rfl
  · rw [isAvailable_of_isPruned ha, isAvailable_of_isPruned hb]
  · rfl

section View

variable {V : Type} {store : CoinsStore V} {nHeight : Int32}

/-- The view shows the output unspent. -/
def isUnspent (store : CoinsStore V) (v : V) (out : COutPoint) : Bool :=
  (store.coins v out.hash).isAvailable out.n

theorem isUnspent_write (hstore : store.Lawful) (v : V) (k : Uint256)
    {c : CCoins} (hc : c.Clean) (out : COutPoint) :
    isUnspent store (store.write v k c) out =
      if out.hash = k then c.isAvailable out.n else isUnspent store v out := by
  have hcoins := isAvailable_congr (hstore.coins_write v k c out.hash) out.n
  unfold isUnspent
  rw [hcoins, show c.cleanup = c from hc]
  split <;> rfl

/-- Spending an output takes it, and leaves the others. -/
theorem isUnspent_spend (hstore : store.Lawful) {v : V}
    (hwf : WellFormedView store v) {out : COutPoint} {coins : CCoins}
    {undo : CTxInUndo}
    (hspend : (store.coins v out.hash).spend out = some (coins, undo))
    (out' : COutPoint) :
    isUnspent store (store.write v out.hash coins) out' =
      (!decide (out = out') && isUnspent store v out') := by
  have hspends := CCoins.spend_spec (hwf _) hspend
  rw [isUnspent_write hstore v _ hspends.clean']
  by_cases hhash : out'.hash = out.hash
  · rw [if_pos hhash, isAvailable_eq_getD, hspends.outputs]
    by_cases hn : out'.n = out.n
    · have heq : out = out' := by
        cases out
        cases out'
        simp_all
      rw [if_pos hn, decide_eq_true heq]
      rfl
    · have hne : out ≠ out' := fun heq => hn (by rw [heq])
      rw [if_neg hn, decide_eq_false hne, isUnspent, isAvailable_eq_getD,
        hhash]
      rfl
  · have hne : out ≠ out' := fun heq => hhash (by rw [heq])
    rw [if_neg hhash, decide_eq_false hne]
    rfl

theorem spendInputs_unspent (hstore : store.Lawful) {vin : List CTxIn}
    {v v' : V} {txundo : CTxUndo} (hwf : WellFormedView store v)
    (h : spendInputs store v vin = some (v', txundo)) :
    WellFormedView store v' ∧ ∀ out, isUnspent store v' out =
      (!(vin.any fun txin => txin.prevout = out) &&
        isUnspent store v out) := by
  induction vin generalizing v txundo with
  | nil =>
      simp only [spendInputs, Option.some.injEq, Prod.mk.injEq] at h
      rw [← h.1]
      simp [hwf]
  | cons txin vin ih =>
      unfold spendInputs at h
      cases hspend : (store.coins v txin.prevout.hash).spend txin.prevout with
      | none =>
          rw [hspend] at h
          cases h
      | some spent =>
          rw [hspend] at h
          simp only [Option.map_eq_some_iff, Prod.mk.injEq] at h
          obtain ⟨⟨v₁, vprevout⟩, hrest, rfl, -⟩ := h
          have hspends := CCoins.spend_spec (hwf _) hspend
          have hwf₁ := wellFormedView_write hstore hwf
            (k := txin.prevout.hash) hspends.wellFormed
          obtain ⟨hwf', hunspent⟩ := ih hwf₁ hrest
          refine ⟨hwf', fun out => ?_⟩
          rw [hunspent, isUnspent_spend hstore hwf hspend]
          simp only [List.any_cons, Bool.not_or]
          cases decide (txin.prevout = out) <;> simp

theorem updateCoins_unspent (hstore : store.Lawful) {tx : CTransaction}
    {v v' : V} {txundo : CTxUndo} (hwf : WellFormedView store v)
    (htx : NoNegativeOutputs tx)
    (h : updateCoins store v tx nHeight = some (v', txundo)) :
    WellFormedView store v' ∧ ∀ out, isUnspent store v' out =
      if tx.hash = out.hash then createsOutput tx out
      else !spendsOutput tx out && isUnspent store v out := by
  unfold updateCoins at h
  simp only [Option.map_eq_some_iff, Prod.mk.injEq] at h
  obtain ⟨⟨v₁, vprevout⟩, hspend, rfl, -⟩ := h
  have hinputs : WellFormedView store v₁ ∧ ∀ out, isUnspent store v₁ out =
      (!spendsOutput tx out && isUnspent store v out) := by
    unfold spendsOutput
    split at hspend
    · rename_i hspends
      rw [hspends]
      exact spendInputs_unspent hstore hwf hspend
    · rename_i hspends
      simp only [Option.some.injEq, Prod.mk.injEq] at hspend
      rw [← hspend.1]
      simp [hspends, hwf]
  refine ⟨wellFormedView_write hstore hinputs.1
    (wellFormed_fromTx htx nHeight), fun out => ?_⟩
  rw [isUnspent_write hstore v₁ _ (CCoins.clean_fromTx tx nHeight),
    hinputs.2]
  by_cases hhash : tx.hash = out.hash
  · have hkey : out.hash = tx.getHash := hhash.symm
    rw [if_pos hkey, if_pos hhash, createsOutput, decide_eq_true hhash]
    rfl
  · have hkey : ¬ out.hash = tx.getHash := fun heq => hhash heq.symm
    rw [if_neg hkey, if_neg hhash]

/-- **The coins of a chain**: connecting a block leaves the view with the
outputs that are unspent after its transactions. -/
theorem updateBlock_unspent (hstore : store.Lawful) {vtx : List CTransaction}
    {v v' : V} {vtxundo : List CTxUndo} {older : List CTransaction}
    (hwf : WellFormedView store v) (htxs : ∀ tx ∈ vtx, NoNegativeOutputs tx)
    (hview : ∀ out, isUnspent store v out = unspentIn older out)
    (h : updateBlock store nHeight v vtx = some (v', vtxundo)) :
    WellFormedView store v' ∧
      ∀ out, isUnspent store v' out =
        unspentIn (vtx.reverse ++ older) out := by
  induction vtx generalizing v vtxundo older with
  | nil =>
      simp only [updateBlock, Option.some.injEq, Prod.mk.injEq] at h
      rw [← h.1]
      exact ⟨hwf, hview⟩
  | cons tx vtx ih =>
      unfold updateBlock at h
      cases hupdate : updateCoins store v tx nHeight with
      | none =>
          rw [hupdate] at h
          cases h
      | some updated =>
          rw [hupdate] at h
          simp only [Option.map_eq_some_iff, Prod.mk.injEq] at h
          obtain ⟨⟨v₂, vundo⟩, hrest, rfl, -⟩ := h
          obtain ⟨hwf₁, hunspent⟩ := updateCoins_unspent hstore hwf
            (htxs tx List.mem_cons_self) hupdate
          have hview₁ : ∀ out, isUnspent store updated.1 out =
              unspentIn (tx :: older) out := by
            intro out
            rw [hunspent, unspentIn, hview]
          have hnext := ih hwf₁
            (fun tx' htx' => htxs tx' (List.mem_cons_of_mem _ htx')) hview₁
            hrest
          simpa using hnext

/-- **The coins of a chain**: when the blocks of a chain are connected to a view without coins,
the outputs that it shows unspent are those that are unspent after all transactions. -/
theorem updateBlocks_unspent (hstore : store.Lawful) {v v' : V}
    (hwf : WellFormedView store v) (hempty : ∀ out, isUnspent store v out = false)
    {blocks : List (Int32 × List CTransaction)}
    (htxs : ∀ block ∈ blocks, ∀ tx ∈ block.2, NoNegativeOutputs tx)
    (h : blocks.foldlM (fun v block => (updateBlock store block.1 v block.2).map Prod.fst) v =
      some v') (out : COutPoint) :
    isUnspent store v' out = unspentIn (blocks.flatMap Prod.snd).reverse out := by
  have hblocks : ∀ (blocks : List (Int32 × List CTransaction)) (v : V)
      (older : List CTransaction), (∀ block ∈ blocks, ∀ tx ∈ block.2, NoNegativeOutputs tx) →
      WellFormedView store v → (∀ out, isUnspent store v out = unspentIn older out) →
      blocks.foldlM (fun v block => (updateBlock store block.1 v block.2).map Prod.fst) v =
        some v' →
      isUnspent store v' out = unspentIn ((blocks.flatMap Prod.snd).reverse ++ older) out := by
    intro blocks
    induction blocks with
    | nil =>
        intro v older _ _ hview hrun
        cases hrun
        exact hview out
    | cons block blocks ih =>
        intro v older htxs hwf hview hrun
        rw [List.foldlM_cons] at hrun
        cases hblock : updateBlock store block.1 v block.2 with
        | none =>
            rw [hblock] at hrun
            cases hrun
        | some updated =>
            rw [hblock] at hrun
            obtain ⟨hwf₁, hview₁⟩ := updateBlock_unspent hstore hwf
              (htxs block List.mem_cons_self) hview hblock
            rw [ih updated.1 _ (fun b hb => htxs b (List.mem_cons_of_mem _ hb)) hwf₁ hview₁ hrun,
              List.flatMap_cons, List.reverse_append, List.append_assoc]
  rw [hblocks blocks v [] htxs hwf (fun out => hempty out) h, List.append_nil]

end View

/-- A map from txids to records. -/
def recordStore : CoinsStore (Uint256 → CCoins) where
  coins v := v
  write v txid coins := Function.update v txid coins.cleanup
  getBestBlock _ := 0
  setBestBlock v _ := v

theorem recordStore_lawful : recordStore.Lawful where
  coins_write v k c k' := Or.inr (Function.update_apply v k c.cleanup k')
  coins_setBestBlock _ _ _ := Or.inr rfl

/-- A coinbase, and a payment of its output. -/
def madeTx : CTransaction where
  hash := 7
  vin := [{ prevout := COutPoint.null }]
  vout := [⟨5, [], 0⟩]

def paidTx : CTransaction := { madeTx with hash := 8, vin := [{ prevout := ⟨7, 0⟩ }] }

def madeAndPaid : List (Int32 × List CTransaction) := [(1, [madeTx]), (2, [paidTx])]

theorem updateBlocks_unspent_two : ∃ v', madeAndPaid.foldlM (fun v block =>
      (updateBlock recordStore block.1 v block.2).map Prod.fst) (fun _ => CCoins.empty) = some v' ∧
    ∀ out, isUnspent recordStore v' out = unspentIn (madeAndPaid.flatMap Prod.snd).reverse out := by
  refine ⟨_, rfl, updateBlocks_unspent recordStore_lawful (fun _ => Or.inl rfl) (fun _ => rfl)
    ?_ rfl⟩
  simp [NoNegativeOutputs, madeAndPaid, paidTx, madeTx]

end Agrarian.Coins
