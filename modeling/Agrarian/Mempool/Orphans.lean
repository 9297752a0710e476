import Agrarian.Lib.OrderedStore
import Agrarian.Net.BlocksInFlight
import Agrarian.Serialize.Stream

/-!
# Orphan transactions

Transactions whose parents are not known wait in `mapOrphanTransactions`, and
`mapOrphanTransactionsByPrev` holds for every parent the set of the orphans that
spend it.  An iterator is the key it points at, and a step through an iterator
that is not valid has no result.
-/

namespace Agrarian.Mempool

open Agrarian.Lib Agrarian.Net

structure COrphanTx where
  tx : CTransaction
  fromPeer : NodeId

/-- The two maps of `main.cpp`. -/
structure Orphans where
  mapOrphanTransactions : KeyedMap Uint256 COrphanTx := .empty
  mapOrphanTransactionsByPrev : KeyedMap Uint256 (Finset Uint256) := .empty

namespace Orphans

/-- `mapOrphanTransactionsByPrev[txin.prevout.hash].insert(hash)`. -/
def insertPrev (hash : Uint256) (byPrev : KeyedMap Uint256 (Finset Uint256)) (txin : CTxIn) :
    KeyedMap Uint256 (Finset Uint256) :=
  byPrev.insert txin.prevout.hash
    (insert hash ((byPrev.find? txin.prevout.hash).getD ∅))

def addOrphanTx (m : Orphans) (tx : CTransaction) (peer : NodeId) : Bool × Orphans :=
  let hash := tx.getHash
  if (m.mapOrphanTransactions.find? hash).isSome then (false, m)
  else if Serialize.getSerializeSize tx > 5000 then
    -- ignore big transactions, to avoid a send-big-orphans memory exhaustion attack
    (false, m)
  else
    (true, {
      mapOrphanTransactions := m.mapOrphanTransactions.insert hash { tx, fromPeer := peer }
      mapOrphanTransactionsByPrev :=
        tx.vin.foldl (insertPrev hash) m.mapOrphanTransactionsByPrev })

/-- The loop body of `EraseOrphanTx`. -/
def erasePrev (hash : Uint256) (byPrev : KeyedMap Uint256 (Finset Uint256)) (txin : CTxIn) :
    KeyedMap Uint256 (Finset Uint256) :=
  match byPrev.find? txin.prevout.hash with
  | none => byPrev
  | some hashes =>
      if hashes.erase hash = ∅ then byPrev.erase txin.prevout.hash
      else byPrev.insert txin.prevout.hash (hashes.erase hash)

def eraseOrphanTx (m : Orphans) (hash : Uint256) : Orphans :=
  match m.mapOrphanTransactions.find? hash with
  | none => m
  | some orphan =>
      { mapOrphanTransactions := m.mapOrphanTransactions.erase hash
        mapOrphanTransactionsByPrev :=
          orphan.tx.vin.foldl (erasePrev hash) m.mapOrphanTransactionsByPrev }

/-- `mapOrphanTransactions.lower_bound`, with `none` for `end()`. -/
def lowerBound (m : Orphans) (hash : Nat) : Option Uint256 :=
  ((m.mapOrphanTransactions.seek BitVec.toNat hash).head?).map Prod.fst

/-- `mapOrphanTransactions.begin()`. -/
def begin (m : Orphans) : Option Uint256 := m.lowerBound 0

/-- The iterator after `++`. -/
def next (m : Orphans) (iter : Uint256) : Option Uint256 := m.lowerBound (iter.toNat + 1)

def size (m : Orphans) : Nat := m.mapOrphanTransactions.toList.length

/-- The loop of `EraseOrphansFor`; the iterator is moved on before its entry is
erased. -/
def eraseForLoop (peer : NodeId) : Nat → Option Uint256 → Nat → Orphans → Option (Nat × Orphans)
  | _, none, nErased, m => some (nErased, m)
  | 0, some _, _, _ => none
  | fuel + 1, some maybeErase, nErased, m => do
      let orphan ← m.mapOrphanTransactions.find? maybeErase
      let iter := m.next maybeErase
      if orphan.fromPeer = peer then
        eraseForLoop peer fuel iter (nErased + 1) (m.eraseOrphanTx orphan.tx.getHash)
      else eraseForLoop peer fuel iter nErased m

def eraseOrphansFor (m : Orphans) (peer : NodeId) : Option (Nat × Orphans) :=
  eraseForLoop peer m.size m.begin 0 m

/-- The loop of `LimitOrphanTxSize`; `randomhash` are the hashes that are drawn. -/
def limitLoop (nMaxOrphans : Nat) (randomhash : Nat → Uint256) :
    Nat → Nat → Orphans → Option (Nat × Orphans)
  | 0, nEvicted, m => if m.size > nMaxOrphans then none else some (nEvicted, m)
  | fuel + 1, nEvicted, m =>
      if m.size > nMaxOrphans then do
        -- evict a random orphan
        let it ← (match m.lowerBound (randomhash nEvicted).toNat with
          | none => m.begin
          | some it => some it)
        limitLoop nMaxOrphans randomhash fuel (nEvicted + 1) (m.eraseOrphanTx it)
      else some (nEvicted, m)

def limitOrphanTxSize (m : Orphans) (nMaxOrphans : Nat) (randomhash : Nat → Uint256) :
    Option (Nat × Orphans) :=
  limitLoop nMaxOrphans randomhash m.size 0 m

inductive Call
  | addOrphanTx (tx : CTransaction) (peer : NodeId)
  | eraseOrphanTx (hash : Uint256)
  | eraseOrphansFor (peer : NodeId)
  | limitOrphanTxSize (nMaxOrphans : Nat) (randomhash : Nat → Uint256)

def call (m : Orphans) : Call → Option Orphans
  | .addOrphanTx tx peer => some (m.addOrphanTx tx peer).2
  | .eraseOrphanTx hash => some (m.eraseOrphanTx hash)
  | .eraseOrphansFor peer => (m.eraseOrphansFor peer).map Prod.snd
  | .limitOrphanTxSize nMaxOrphans randomhash =>
      (m.limitOrphanTxSize nMaxOrphans randomhash).map Prod.snd

def run (calls : List Call) : Option Orphans :=
  calls.foldlM call {}

/-! ## The index -/

/-- The hash is in the set of the parent. -/
def Indexed (byPrev : KeyedMap Uint256 (Finset Uint256)) (prev hash : Uint256) : Prop :=
  ∃ hashes, byPrev.find? prev = some hashes ∧ hash ∈ hashes

/-- No entry of the index is empty. -/
def NoneEmpty (byPrev : KeyedMap Uint256 (Finset Uint256)) : Prop :=
  ∀ prev hashes, byPrev.find? prev = some hashes → hashes ≠ ∅

/-- A transaction has an input that spends the parent. -/
def Spends (tx : CTransaction) (prev : Uint256) : Prop :=
  ∃ txin ∈ tx.vin, txin.prevout.hash = prev

structure Inv (m : Orphans) : Prop where
  keys : ∀ hash orphan, m.mapOrphanTransactions.find? hash = some orphan →
    orphan.tx.getHash = hash
  index : ∀ prev hash, Indexed m.mapOrphanTransactionsByPrev prev hash ↔
    ∃ orphan, m.mapOrphanTransactions.find? hash = some orphan ∧ Spends orphan.tx prev
  noneEmpty : NoneEmpty m.mapOrphanTransactionsByPrev

section Index

variable {byPrev : KeyedMap Uint256 (Finset Uint256)} {hash : Uint256}

theorem indexed_insertPrev (txin : CTxIn) (prev hash' : Uint256) :
    Indexed (insertPrev hash byPrev txin) prev hash' ↔
      Indexed byPrev prev hash' ∨ hash' = hash ∧ txin.prevout.hash = prev := by
  unfold Indexed insertPrev
  simp only [KeyedMap.find?_insert]
  by_cases h : prev = txin.prevout.hash
  · subst h
    simp only [if_true, Option.some.injEq, exists_eq_left', Finset.mem_insert, and_true]
    cases byPrev.find? txin.prevout.hash with
    | none => simp
    | some hashes => simp [or_comm]
  · rw [if_neg h]
    simp [Ne.symm h]

theorem noneEmpty_insertPrev (h : NoneEmpty byPrev) (txin : CTxIn) :
    NoneEmpty (insertPrev hash byPrev txin) := by
  intro prev hashes hfind
  rw [insertPrev, KeyedMap.find?_insert] at hfind
  split at hfind
  · rw [← Option.some.inj hfind]
    exact Finset.insert_ne_empty _ _
  · exact h prev hashes hfind

/-- The loop of `AddOrphanTx` over the inputs. -/
theorem foldl_insertPrev (hash : Uint256) (vin : List CTxIn) (h : NoneEmpty byPrev) :
    (∀ prev hash', Indexed (vin.foldl (insertPrev hash) byPrev) prev hash' ↔
      Indexed byPrev prev hash' ∨ hash' = hash ∧ ∃ txin ∈ vin, txin.prevout.hash = prev) ∧
    NoneEmpty (vin.foldl (insertPrev hash) byPrev) := by
  induction vin generalizing byPrev with
  | nil =>
      refine ⟨fun prev hash' => ?_, h⟩
      simp
  | cons txin vin ih =>
      rcases ih (noneEmpty_insertPrev h txin) with ⟨hindex, hnone⟩
      refine ⟨fun prev hash' => ?_, hnone⟩
      rw [List.foldl_cons, hindex, indexed_insertPrev, List.exists_mem_cons_iff, or_assoc,
        ← and_or_left]

theorem indexed_erasePrev (txin : CTxIn) (prev hash' : Uint256) :
    Indexed (erasePrev hash byPrev txin) prev hash' ↔
      Indexed byPrev prev hash' ∧ (hash' ≠ hash ∨ txin.prevout.hash ≠ prev) := by
  unfold erasePrev
  by_cases h : prev = txin.prevout.hash
  · subst h
    cases hfind : byPrev.find? txin.prevout.hash with
    | none => simp [Indexed, hfind]
    | some hashes =>
        dsimp only
        split
        · next hempty =>
            have hall : ∀ x ∈ hashes, x = hash := by
              intro x hx
              by_contra hne
              have hmem := Finset.mem_erase.mpr ⟨hne, hx⟩
              rw [hempty] at hmem
              exact absurd hmem (Finset.notMem_empty x)
            simp only [Indexed, KeyedMap.find?_erase_self, hfind, Option.some.injEq,
              exists_eq_left', ne_eq, not_true_eq_false, or_false, reduceCtorEq, false_and,
              exists_false, false_iff, not_and, not_not]
            exact hall hash'
        · simp [Indexed, hfind, and_comm]
  · have hother : ∀ byPrev' : KeyedMap Uint256 (Finset Uint256),
        byPrev'.find? prev = byPrev.find? prev →
        (Indexed byPrev' prev hash' ↔
          Indexed byPrev prev hash' ∧ (hash' ≠ hash ∨ txin.prevout.hash ≠ prev)) := by
      intro byPrev' hsame
      simp [Indexed, hsame, Ne.symm h]
    split
    · exact hother _ rfl
    · split
      · exact hother _ (KeyedMap.find?_erase_ne _ h)
      · exact hother _ (KeyedMap.find?_insert_ne _ _ h)

theorem noneEmpty_erasePrev (h : NoneEmpty byPrev) (txin : CTxIn) :
    NoneEmpty (erasePrev hash byPrev txin) := by
  intro prev hashes hfind
  unfold erasePrev at hfind
  split at hfind
  · exact h prev hashes hfind
  · split at hfind
    · rw [KeyedMap.find?_erase] at hfind
      split at hfind
      · cases hfind
      · exact h prev hashes hfind
    · next hleft =>
        rw [KeyedMap.find?_insert] at hfind
        split at hfind
        · rw [← Option.some.inj hfind]
          exact hleft
        · exact h prev hashes hfind

/-- The loop of `EraseOrphanTx` over the inputs. -/
theorem foldl_erasePrev (hash : Uint256) (vin : List CTxIn) (h : NoneEmpty byPrev) :
    (∀ prev hash', Indexed (vin.foldl (erasePrev hash) byPrev) prev hash' ↔
      Indexed byPrev prev hash' ∧
        (hash' ≠ hash ∨ ¬ ∃ txin ∈ vin, txin.prevout.hash = prev)) ∧
    NoneEmpty (vin.foldl (erasePrev hash) byPrev) := by
  induction vin generalizing byPrev with
  | nil =>
      refine ⟨fun prev hash' => ?_, h⟩
      simp
  | cons txin vin ih =>
      rcases ih (noneEmpty_erasePrev h txin) with ⟨hindex, hnone⟩
      refine ⟨fun prev hash' => ?_, hnone⟩
      rw [List.foldl_cons, hindex, indexed_erasePrev, List.exists_mem_cons_iff, not_or, and_assoc,
        ← or_and_left]

end Index

/-! ## One orphan -/

theorem inv_empty : Inv {} where
  keys := fun hash orphan h => by
    rw [KeyedMap.find?_empty] at h
    cases h
  index := by
    intro prev hash
    simp [Indexed]
  noneEmpty := fun prev hashes h => by
    rw [KeyedMap.find?_empty] at h
    cases h

variable {m : Orphans}

theorem Inv.addOrphanTx (h : m.Inv) (tx : CTransaction) (peer : NodeId) :
    (m.addOrphanTx tx peer).2.Inv := by
  unfold Orphans.addOrphanTx
  dsimp only
  split
  · exact h
  · next hnew =>
      split
      · exact h
      · have hnone : m.mapOrphanTransactions.find? tx.getHash = none := by
          simpa using hnew
        rcases foldl_insertPrev tx.getHash tx.vin h.noneEmpty with ⟨hindex, hnoneEmpty⟩
        refine ⟨fun hash orphan hfind => ?_, fun prev hash => ?_, hnoneEmpty⟩
        · rw [KeyedMap.find?_insert] at hfind
          split at hfind
          · next heq =>
              rw [← Option.some.inj hfind]
              exact heq.symm
          · exact h.keys hash orphan hfind
        · rw [hindex, h.index]
          simp only [KeyedMap.find?_insert]
          by_cases heq : hash = tx.getHash
          · subst heq
            simp [hnone, Spends]
          · simp [heq]

theorem Inv.eraseOrphanTx (h : m.Inv) (hash : Uint256) : (m.eraseOrphanTx hash).Inv := by
  unfold Orphans.eraseOrphanTx
  split
  · exact h
  · next orphan horphan =>
      rcases foldl_erasePrev hash orphan.tx.vin h.noneEmpty with ⟨hindex, hnoneEmpty⟩
      refine ⟨fun hash' orphan' hfind => ?_, fun prev hash' => ?_, hnoneEmpty⟩
      · rw [KeyedMap.find?_erase] at hfind
        split at hfind
        · cases hfind
        · exact h.keys hash' orphan' hfind
      · rw [hindex, h.index]
        simp only [KeyedMap.find?_erase]
        by_cases heq : hash' = hash
        · subst heq
          simp [horphan, Spends]
        · simp [heq]

theorem find?_eraseOrphanTx (m : Orphans) (hash hash' : Uint256) :
    (m.eraseOrphanTx hash).mapOrphanTransactions.find? hash' =
      if hash' = hash then none else m.mapOrphanTransactions.find? hash' := by
  unfold eraseOrphanTx
  split
  · next hnone =>
      split
      · next heq => rw [heq, hnone]
      · rfl
  · exact KeyedMap.find?_erase _ _ _

theorem size_eraseOrphanTx {hash : Uint256} {orphan : COrphanTx}
    (h : m.mapOrphanTransactions.find? hash = some orphan) :
    m.size = 1 + (m.eraseOrphanTx hash).size := by
  unfold eraseOrphanTx
  rw [h]
  exact KeyedMap.length_toList_erase h

/-! ## The iterators -/

theorem lowerBound_some {n : Nat} {hash : Uint256} (h : m.lowerBound n = some hash) :
    (∃ orphan, m.mapOrphanTransactions.find? hash = some orphan) ∧ n ≤ hash.toNat ∧
      ∀ hash' orphan, m.mapOrphanTransactions.find? hash' = some orphan → n ≤ hash'.toNat →
        hash.toNat ≤ hash'.toNat := by
  rcases Option.map_eq_some_iff.mp h with ⟨⟨hash', orphan⟩, hhead, rfl⟩
  rcases KeyedMap.head?_seek_some hhead with ⟨hfind, hle, hleast⟩
  exact ⟨⟨orphan, hfind⟩, hle, hleast⟩

theorem lowerBound_none {n : Nat} (h : m.lowerBound n = none) {hash : Uint256}
    {orphan : COrphanTx} (hfind : m.mapOrphanTransactions.find? hash = some orphan) :
    hash.toNat < n :=
  KeyedMap.head?_seek_none (Option.map_eq_none_iff.mp h) hfind

/-- The entries from an iterator on. -/
def remaining (m : Orphans) (hash : Uint256) : Nat :=
  m.mapOrphanTransactions.countFrom BitVec.toNat hash.toNat

theorem eraseOrphanTx_sublist (m : Orphans) (hash : Uint256) :
    (m.eraseOrphanTx hash).mapOrphanTransactions.toList.Sublist
      m.mapOrphanTransactions.toList := by
  unfold eraseOrphanTx
  split
  · exact List.Sublist.refl _
  · exact KeyedMap.toList_erase_sublist _ _

/-- What the walk of `EraseOrphansFor` keeps: the iterator is valid, and the
entries before it are not of the peer. -/
structure Walk (m : Orphans) (peer : NodeId) (iter : Option Uint256) : Prop where
  inv : m.Inv
  valid : ∀ hash, iter = some hash →
    ∃ orphan, m.mapOrphanTransactions.find? hash = some orphan
  done : ∀ hash orphan, m.mapOrphanTransactions.find? hash = some orphan →
    (∀ next, iter = some next → hash.toNat < next.toNat) → orphan.fromPeer ≠ peer

/-- One turn: nothing but the entry behind the iterator is erased, if it is of the
peer. -/
theorem Walk.step {peer : NodeId} {maybeErase : Uint256} (h : m.Walk peer (some maybeErase))
    {m' : Orphans} (hinv : m'.Inv)
    (hother : ∀ hash, hash ≠ maybeErase →
      m'.mapOrphanTransactions.find? hash = m.mapOrphanTransactions.find? hash)
    (hentry : ∀ orphan, m'.mapOrphanTransactions.find? maybeErase = some orphan →
      orphan.fromPeer ≠ peer) : m'.Walk peer (m.next maybeErase) where
  inv := hinv
  valid := by
    intro hash hnext
    rcases lowerBound_some hnext with ⟨⟨orphan, hfind⟩, hlt, -⟩
    have hne : hash ≠ maybeErase := by
      rintro rfl
      omega
    exact ⟨orphan, (hother hash hne).trans hfind⟩
  done := by
    intro hash orphan hfind hbefore
    by_cases heq : hash = maybeErase
    · rw [heq] at hfind
      exact hentry orphan hfind
    rw [hother hash heq] at hfind
    have hne : hash.toNat ≠ maybeErase.toNat := fun hnat => heq (BitVec.eq_of_toNat_eq hnat)
    apply h.done hash orphan hfind
    rintro next ⟨⟩
    -- behind the iterator the next one would have stopped at the entry
    by_contra hlt
    cases hnext : m.next maybeErase with
    | none =>
        have hbelow := lowerBound_none hnext hfind
        omega
    | some next =>
        have hleast := (lowerBound_some hnext).2.2 hash orphan hfind (by omega)
        have hless := hbefore next hnext
        omega

/-- At the end of the map every entry is of another peer. -/
theorem Walk.ended {peer : NodeId} (h : m.Walk peer none) (hash : Uint256)
    (orphan : COrphanTx) :
    m.mapOrphanTransactions.find? hash = some orphan ↔
      m.mapOrphanTransactions.find? hash = some orphan ∧ orphan.fromPeer ≠ peer :=
  ⟨fun hfind => ⟨hfind, h.done hash orphan hfind (by simp)⟩, And.left⟩

/-- The entry behind the iterator is erased. -/
theorem Walk.erase {peer : NodeId} {maybeErase : Uint256} (h : m.Walk peer (some maybeErase)) :
    (m.eraseOrphanTx maybeErase).Walk peer (m.next maybeErase) := by
  apply h.step (h.inv.eraseOrphanTx maybeErase)
  · intro hash hne
    rw [find?_eraseOrphanTx, if_neg hne]
  · intro orphan hfind
    rw [find?_eraseOrphanTx, if_pos rfl] at hfind
    cases hfind

/-- The next iterator has fewer entries before it, also with some of them erased. -/
theorem remaining_next {m' : Orphans} {maybeErase hash : Uint256} {orphan : COrphanTx}
    (hfind : m.mapOrphanTransactions.find? maybeErase = some orphan)
    (hsub : m'.mapOrphanTransactions.toList.Sublist m.mapOrphanTransactions.toList)
    (hnext : m.next maybeErase = some hash) :
    m'.remaining hash < m.remaining maybeErase := by
  have hle := (lowerBound_some hnext).2.1
  have hsmaller := KeyedMap.countFrom_le BitVec.toNat hsub (le_refl hash.toNat)
  have hlt := KeyedMap.countFrom_lt BitVec.toNat hfind (Nat.lt_of_succ_le hle)
  exact hsmaller.trans_lt hlt

/-- **Erasing while iterating** ends without an invalid iterator, and leaves the
orphans of the other peers. -/
theorem eraseForLoop_spec {peer : NodeId} {fuel : Nat} {iter : Option Uint256} (nErased : Nat)
    (h : m.Walk peer iter) (hfuel : ∀ hash, iter = some hash → m.remaining hash ≤ fuel) :
    ∃ n m', eraseForLoop peer fuel iter nErased m = some (n, m') ∧ m'.Inv ∧
      ∀ hash orphan, m'.mapOrphanTransactions.find? hash = some orphan ↔
        m.mapOrphanTransactions.find? hash = some orphan ∧ orphan.fromPeer ≠ peer := by
  induction fuel generalizing iter nErased m with
  | zero =>
      cases iter with
      | none => exact ⟨nErased, m, rfl, h.inv, h.ended⟩
      | some maybeErase =>
          rcases h.valid maybeErase rfl with ⟨orphan, hfind⟩
          have hlt := KeyedMap.countFrom_lt BitVec.toNat hfind (Nat.lt_succ_self _)
          have hle := hfuel maybeErase rfl
          unfold remaining at hle
          omega
  | succ fuel ih =>
      cases iter with
      | none => exact ⟨nErased, m, rfl, h.inv, h.ended⟩
      | some maybeErase =>
          rcases h.valid maybeErase rfl with ⟨orphan, hfind⟩
          have hfuel' : ∀ m' : Orphans,
              m'.mapOrphanTransactions.toList.Sublist m.mapOrphanTransactions.toList →
              ∀ hash, m.next maybeErase = some hash → m'.remaining hash ≤ fuel := by
            intro m' hsub hash hnext
            have hlt := remaining_next hfind hsub hnext
            have hbound := hfuel maybeErase rfl
            omega
          rw [eraseForLoop, hfind, Option.bind_eq_bind, Option.bind_some]
          dsimp only
          split
          · next hpeer =>
              rw [h.inv.keys maybeErase orphan hfind]
              rcases ih (nErased + 1) h.erase (hfuel' _ (eraseOrphanTx_sublist m maybeErase)) with
                ⟨n, m', hloop, hinv, hleft⟩
              refine ⟨n, m', hloop, hinv, fun hash orphan' => ?_⟩
              rw [hleft, find?_eraseOrphanTx]
              by_cases heq : hash = maybeErase
              · rw [if_pos heq, heq, hfind]
                constructor
                · rintro ⟨hnone, -⟩
                  cases hnone
                · rintro ⟨hsome, hother⟩
                  rw [← Option.some.inj hsome] at hother
                  exact absurd hpeer hother
              · rw [if_neg heq]
          · next hpeer =>
              apply ih nErased _ (hfuel' m (List.Sublist.refl _))
              apply h.step h.inv (fun _ _ => rfl)
              intro orphan' hfind'
              rw [hfind] at hfind'
              rwa [← Option.some.inj hfind']

theorem eraseOrphansFor_spec (h : m.Inv) (peer : NodeId) :
    ∃ n m', m.eraseOrphansFor peer = some (n, m') ∧ m'.Inv ∧
      ∀ hash orphan, m'.mapOrphanTransactions.find? hash = some orphan ↔
        m.mapOrphanTransactions.find? hash = some orphan ∧ orphan.fromPeer ≠ peer := by
  apply eraseForLoop_spec 0
  · refine ⟨h, fun hash hbegin => (lowerBound_some hbegin).1, ?_⟩
    intro hash orphan hfind hbefore
    cases hbegin : m.begin with
    | none => exact absurd (lowerBound_none hbegin hfind) (Nat.not_lt_zero _)
    | some first =>
        have hleast := (lowerBound_some hbegin).2.2 hash orphan hfind (Nat.zero_le _)
        have hless := hbefore first hbegin
        omega
  · intro hash _
    exact List.length_filter_le _ _

/-! ## Eviction -/

/-- There is an entry to evict in a map that is not empty: at the lower bound of
any hash, or else at the beginning. -/
theorem evict_spec (hpos : 0 < m.size) (randomhash : Uint256) :
    ∃ it orphan, (match m.lowerBound randomhash.toNat with
        | none => m.begin
        | some it => some it) = some it ∧
      m.mapOrphanTransactions.find? it = some orphan := by
  cases hbound : m.lowerBound randomhash.toNat with
  | some it =>
      rcases (lowerBound_some hbound).1 with ⟨orphan, hfind⟩
      exact ⟨it, orphan, rfl, hfind⟩
  | none =>
      cases hbegin : m.begin with
      | some it =>
          rcases (lowerBound_some hbegin).1 with ⟨orphan, hfind⟩
          exact ⟨it, orphan, rfl, hfind⟩
      | none =>
          rcases List.exists_mem_of_length_pos hpos with ⟨⟨hash, orphan⟩, hmem⟩
          exact absurd (lowerBound_none hbegin (KeyedMap.mem_toList.mp hmem))
            (Nat.not_lt_zero _)

/-- **Eviction ends** at the limit or below, whatever hashes are drawn. -/
theorem limitLoop_spec (nMaxOrphans : Nat) (randomhash : Nat → Uint256) {fuel : Nat}
    (nEvicted : Nat) (h : m.Inv) (hfuel : m.size ≤ fuel) :
    ∃ n m', limitLoop nMaxOrphans randomhash fuel nEvicted m = some (n, m') ∧ m'.Inv ∧
      m'.size ≤ nMaxOrphans := by
  induction fuel generalizing nEvicted m with
  | zero =>
      rw [limitLoop, if_neg (by omega)]
      exact ⟨nEvicted, m, rfl, h, by omega⟩
  | succ fuel ih =>
      rw [limitLoop]
      split
      · next hmore =>
          rcases evict_spec (m := m) (by omega) (randomhash nEvicted) with ⟨it, orphan, hit, hfind⟩
          have hsize := size_eraseOrphanTx hfind
          rw [hit, Option.bind_eq_bind, Option.bind_some]
          exact ih (nEvicted + 1) (h.eraseOrphanTx it) (by omega)
      · exact ⟨nEvicted, m, rfl, h, by omega⟩

theorem limitOrphanTxSize_spec (h : m.Inv) (nMaxOrphans : Nat) (randomhash : Nat → Uint256) :
    ∃ n m', m.limitOrphanTxSize nMaxOrphans randomhash = some (n, m') ∧ m'.Inv ∧
      m'.size ≤ nMaxOrphans :=
  limitLoop_spec nMaxOrphans randomhash 0 h (Nat.le_refl _)

/-! ## Runs -/

/-- Every call ends and keeps the invariant. -/
theorem Inv.call (h : m.Inv) (c : Call) : ∃ m', m.call c = some m' ∧ m'.Inv := by
  cases c with
  | addOrphanTx tx peer => exact ⟨_, rfl, h.addOrphanTx tx peer⟩
  | eraseOrphanTx hash => exact ⟨_, rfl, h.eraseOrphanTx hash⟩
  | eraseOrphansFor peer =>
      rcases eraseOrphansFor_spec h peer with ⟨n, m', hcall, hinv, -⟩
      exact ⟨m', congrArg (Option.map Prod.snd) hcall, hinv⟩
  | limitOrphanTxSize nMaxOrphans randomhash =>
      rcases limitOrphanTxSize_spec h nMaxOrphans randomhash with ⟨n, m', hcall, hinv, -⟩
      exact ⟨m', congrArg (Option.map Prod.snd) hcall, hinv⟩

theorem run_inv (calls : List Call) : ∃ m, run calls = some m ∧ m.Inv := by
  induction calls using List.reverseRecOn with
  | nil => exact ⟨{}, rfl, inv_empty⟩
  | append_singleton calls c ih =>
      rcases ih with ⟨m, hrun, hinv⟩
      rcases hinv.call c with ⟨m', hcall, hinv'⟩
      refine ⟨m', ?_, hinv'⟩
      rw [run] at hrun ⊢
      rw [List.foldlM_append, hrun, Option.bind_eq_bind, Option.bind_some]
      simpa using hcall

/-- **The index agrees with the map** after every run of calls: a hash is in the
set of a parent exactly when the orphan is there and spends the parent, no set
is empty, and eviction always ends with at most the given number of orphans. -/
theorem orphans_indexed (calls : List Call) :
    ∃ m, run calls = some m ∧
      (∀ prev hash,
        (∃ hashes, m.mapOrphanTransactionsByPrev.find? prev = some hashes ∧ hash ∈ hashes) ↔
          ∃ orphan, m.mapOrphanTransactions.find? hash = some orphan ∧
            ∃ txin ∈ orphan.tx.vin, txin.prevout.hash = prev) ∧
      (∀ prev hashes, m.mapOrphanTransactionsByPrev.find? prev = some hashes → hashes ≠ ∅) ∧
      ∀ nMaxOrphans randomhash, ∃ nEvicted m',
        m.limitOrphanTxSize nMaxOrphans randomhash = some (nEvicted, m') ∧
        m'.size ≤ nMaxOrphans := by
  rcases run_inv calls with ⟨m, hrun, hinv⟩
  refine ⟨m, hrun, hinv.index, hinv.noneEmpty, fun nMaxOrphans randomhash => ?_⟩
  rcases limitOrphanTxSize_spec hinv nMaxOrphans randomhash with ⟨n, m', hlimit, -, hsize⟩
  exact ⟨n, m', hlimit, hsize⟩

end Orphans

end Agrarian.Mempool
