import Agrarian.Lib.Selection
import Agrarian.Masternode.Manager

/-!
# Ranks and the payment queue

`GetMasternodeRank` and `GetNextMasternodeInQueueForPayment` of
`masternodeman.cpp`.  Both sort pairs of a number and an input by the number
alone, so the sort is any function that does so.  A rank is the position of a
masternode by the compact form of its score; the queue takes the masternode
with the best score out of the tenth of the network that waited longest.
-/

namespace Agrarian.Masternode

open Agrarian.Lib

/-- `MN_WINNER_MINIMUM_AGE`. -/
def MN_WINNER_MINIMUM_AGE : Int := 8000

/-- A number to sort by, and the input of a masternode. -/
abbrev Entry := Int × CTxIn

/-- The position of an input, counted from 1. -/
def rankLoop (vin : CTxIn) : List Entry → Int → Int
  | [], _ => -1
  | s :: rest, rank =>
      let rank := rank + 1
      if s.2.prevout = vin.prevout then rank else rankLoop vin rest rank

namespace CMasternodeMan

variable (node : NodeView) (sort : List Entry → List Entry)

/-! ## Ranks -/

/-- The entry of one masternode, unless it is skipped. -/
def rankEntry (nBlockHeight minProtocol : Int) (fOnlyActive : Bool)
    (mn : CMasternode) : Option Entry :=
  if mn.protocolVersion < minProtocol then none
  else if node.fPaymentEnforcement ∧
      node.getAdjustedTime - mn.sigTime < MN_WINNER_MINIMUM_AGE then none
  else if fOnlyActive && !(mn.check node false).isEnabled then none
  else
    some (Uint256.getCompact (mn.calculateScore node nBlockHeight).1 false, mn.vin)

/-- `vecMasternodeScores`. -/
def vecMasternodeScores (nBlockHeight minProtocol : Int) (fOnlyActive : Bool)
    (man : CMasternodeMan) : List Entry :=
  man.vMasternodes.filterMap (rankEntry node nBlockHeight minProtocol fOnlyActive)

def getMasternodeRank (vin : CTxIn) (nBlockHeight minProtocol : Int)
    (fOnlyActive : Bool) (man : CMasternodeMan) : Int :=
  match (node.hashes.getBlockHash nBlockHeight).1 with
  | none => -1
  | some _ =>
      rankLoop vin
        (sort (man.vecMasternodeScores node nBlockHeight minProtocol fOnlyActive)) 0

/-! ## The payment queue -/

/-- The entry of a masternode that has been checked, unless it is skipped. -/
def queueEntry (nBlockHeight : Int) (fFilterSigTime : Bool) (nMnCount : Int)
    (mn : CMasternode) : Option Entry :=
  if !mn.isEnabled then none
  else if mn.protocolVersion < node.minPaymentsProto then none
  else if mn.isScheduled node nBlockHeight then none
  -- 2.6 minutes for each masternode
  else if fFilterSigTime ∧ node.getAdjustedTime < mn.sigTime + nMnCount * 156 then none
  else if (mn.getMasternodeInputAge node).1 < nMnCount then none
  else some (mn.secondsSincePayment node nMnCount, mn.vin)

/-- `vecMasternodeLastPaid`.  The count of enabled masternodes checks all of
them, so that later checks of the same call change nothing. -/
def vecMasternodeLastPaid (nBlockHeight : Int) (fFilterSigTime : Bool)
    (man : CMasternodeMan) : List Entry :=
  let (nMnCount, man) := man.countEnabled node (-1)
  man.vMasternodes.filterMap
    (queueEntry node nBlockHeight fFilterSigTime nMnCount)

/-- The entries that are left when the filter for new masternodes is dropped if
it takes too many. -/
def paymentQueue (nBlockHeight : Int) (fFilterSigTime : Bool)
    (man : CMasternodeMan) : List Entry :=
  let entries := man.vecMasternodeLastPaid node nBlockHeight fFilterSigTime
  let nCount : Int := entries.length
  if fFilterSigTime ∧ nCount < (man.countEnabled node (-1)).1 / 3 then
    man.vecMasternodeLastPaid node nBlockHeight false
  else entries

/-- The loop over the sorted entries. -/
def bestLoop (nBlockHeight nTenthNetwork : Int) (man : CMasternodeMan) :
    Option CMasternode → Uint256 → Int → List Entry → Option CMasternode
  | pBestMasternode, _, _, [] => pBestMasternode
  | pBestMasternode, nHigh, nCountTenth, s :: rest =>
      match man.find s.2 with
      | none => pBestMasternode
      | some pmn =>
          let n := (pmn.calculateScore node (nBlockHeight - 100)).1
          let (pBestMasternode, nHigh) :=
            if nHigh < n then (some pmn, n) else (pBestMasternode, nHigh)
          let nCountTenth := nCountTenth + 1
          if nTenthNetwork ≤ nCountTenth then pBestMasternode
          else bestLoop nBlockHeight nTenthNetwork man pBestMasternode nHigh
            nCountTenth rest

/-- The masternode to pay, and `nCount`. -/
def getNextMasternodeInQueueForPayment (nBlockHeight : Int)
    (fFilterSigTime : Bool) (man : CMasternodeMan) : Option CMasternode × Int :=
  let entries := man.paymentQueue node nBlockHeight fFilterSigTime
  let (nEnabled, man) := man.countEnabled node (-1)
  let nTenthNetwork := nEnabled / 10
  (bestLoop node nBlockHeight nTenthNetwork man none 0 0 (sort entries),
    entries.length)

/-! ## Entries -/

variable {node} {sort}

/-- Entries keep apart what the list keeps apart. -/
theorem nodup_entries (man : CMasternodeMan) {f : CMasternode → Option Entry}
    (hf : ∀ mn s, f mn = some s → s.2 = mn.vin) :
    ((man.vMasternodes.filterMap f).map fun s => s.2.prevout).Nodup := by
  have hsublist : ∀ l : List CMasternode,
      ((l.filterMap f).map fun s => s.2.prevout).Sublist
        (l.map fun mn => mn.vin.prevout) := by
    intro l
    induction l with
    | nil => exact List.Sublist.refl []
    | cons mn l ih =>
        cases hmn : f mn with
        | none =>
            rw [List.filterMap_cons_none hmn]
            exact ih.cons _
        | some s =>
            rw [List.filterMap_cons_some hmn, List.map_cons, List.map_cons, hf mn s hmn]
            exact ih.cons_cons _
  exact man.distinct.sublist (hsublist man.vMasternodes)

theorem rankEntry_vin {nBlockHeight minProtocol : Int} {fOnlyActive : Bool}
    {mn : CMasternode} {s : Entry}
    (h : rankEntry node nBlockHeight minProtocol fOnlyActive mn = some s) :
    s.2 = mn.vin := by
  unfold rankEntry at h
  split_ifs at h
  simp only [Option.some.injEq] at h
  rw [← h]

theorem queueEntry_vin {nBlockHeight : Int} {fFilterSigTime : Bool}
    {nMnCount : Int} {mn : CMasternode} {s : Entry}
    (h : queueEntry node nBlockHeight fFilterSigTime nMnCount mn = some s) :
    s.2 = mn.vin := by
  unfold queueEntry at h
  split_ifs at h
  simp only [Option.some.injEq] at h
  rw [← h]

/-- The list in another order. -/
def reorder (man : CMasternodeMan) {vMasternodes : List CMasternode}
    (hperm : vMasternodes.Perm man.vMasternodes) : CMasternodeMan where
  vMasternodes := vMasternodes
  distinct := (hperm.map _).nodup_iff.mpr man.distinct

theorem reorder_vMasternodes (man : CMasternodeMan)
    {vMasternodes : List CMasternode}
    (hperm : vMasternodes.Perm man.vMasternodes) :
    (man.reorder hperm).vMasternodes = vMasternodes :=
  rfl

/-! ## Ranks and the order of the list -/

theorem rankLoop_eq (vin : CTxIn) (l : List Entry) (rank : Int) :
    rankLoop vin l rank =
      if vin.prevout ∈ l.map fun s => s.2.prevout then
        rank + 1 + (l.map fun s => s.2.prevout).idxOf vin.prevout
      else -1 := by
  induction l generalizing rank with
  | nil => simp [rankLoop]
  | cons s l ih =>
      unfold rankLoop
      by_cases hs : s.2.prevout = vin.prevout
      · simp [hs]
      · have hs' : ¬vin.prevout = s.2.prevout := fun h => hs h.symm
        simp only [if_neg hs, ih, List.map_cons, List.mem_cons, hs', false_or,
          List.idxOf_cons_ne _ hs]
        split
        · push_cast
          omega
        · rfl

/-- Every masternode has the same rank for any order of the list. -/
def RankIndep (node : NodeView) (nBlockHeight minProtocol : Int)
    (fOnlyActive : Bool) (man : CMasternodeMan) : Prop :=
  ∀ sort, SortsDown Prod.fst sort → ∀ man' : CMasternodeMan,
    man'.vMasternodes.Perm man.vMasternodes → ∀ vin,
      getMasternodeRank node sort vin nBlockHeight minProtocol fOnlyActive man' =
        getMasternodeRank node sort vin nBlockHeight minProtocol fOnlyActive man

/-- **The ranks** do not depend on the order of the list if and only if the hash
of the block is not known or no two masternodes that are ranked have scores of
the same compact form. -/
theorem rankIndep_iff (node : NodeView) (nBlockHeight minProtocol : Int)
    (fOnlyActive : Bool) (man : CMasternodeMan) :
    RankIndep node nBlockHeight minProtocol fOnlyActive man ↔
      (node.hashes.getBlockHash nBlockHeight).1 = none ∨
      ((man.vecMasternodeScores node nBlockHeight minProtocol fOnlyActive).map
        Prod.fst).Nodup := by
  generalize hentry :
    rankEntry node nBlockHeight minProtocol fOnlyActive = f
  have hscores : ∀ man : CMasternodeMan,
      man.vecMasternodeScores node nBlockHeight minProtocol fOnlyActive =
        man.vMasternodes.filterMap f := by
    intro man
    rw [vecMasternodeScores, hentry]
  have hnames : ((man.vMasternodes.filterMap f).map fun s => s.2.prevout).Nodup := by
    apply nodup_entries
    rw [← hentry]
    exact fun mn s h => rankEntry_vin h
  unfold RankIndep getMasternodeRank
  simp only [hscores]
  cases hhash : (node.hashes.getBlockHash nBlockHeight).1 with
  | none => simp
  | some hash =>
      simp only [reduceCtorEq, false_or]
      rw [List.nodup_map_iff_inj_on hnames.of_map]
      constructor
      · intro hindep
        refine (position_indep_iff hnames).mp ?_
        intro sort hsort l' hperm b hb
        obtain ⟨vMasternodes, hreorder, rfl⟩ := exists_perm_filterMap f hperm
        have hrank := hindep sort hsort (man.reorder hreorder) hreorder b.2
        have hname : b.2.prevout ∈
            (man.vMasternodes.filterMap f).map fun s => s.2.prevout :=
          List.mem_map_of_mem hb
        rw [reorder_vMasternodes, rankLoop_eq, rankLoop_eq,
          if_pos (((hsort.perm _).trans hperm |>.map _).mem_iff.mpr hname),
          if_pos (((hsort.perm _).map _).mem_iff.mpr hname)] at hrank
        omega
      · intro hties sort hsort man' hperm vin
        rw [hsort.eq_of_perm (hperm.filterMap f) hties]

/-! ## The queue and the order of the list -/

theorem checkAll_perm {man man' : CMasternodeMan}
    (hperm : man'.vMasternodes.Perm man.vMasternodes) :
    (man'.checkAll node).vMasternodes.Perm (man.checkAll node).vMasternodes :=
  hperm.map _

theorem countEnabled_of_perm {man man' : CMasternodeMan}
    (hperm : man'.vMasternodes.Perm man.vMasternodes) (protocolVersion : Int) :
    (man'.countEnabled node protocolVersion).1 =
      (man.countEnabled node protocolVersion).1 := by
  unfold countEnabled
  simp only
  rw [(checkAll_perm hperm).countP_eq]

theorem vecMasternodeLastPaid_eq {man man' : CMasternodeMan}
    (hperm : man'.vMasternodes.Perm man.vMasternodes) (nBlockHeight : Int)
    (fFilterSigTime : Bool) :
    man'.vecMasternodeLastPaid node nBlockHeight fFilterSigTime =
      man'.vMasternodes.filterMap fun mn =>
        queueEntry node nBlockHeight fFilterSigTime
          (man.countEnabled node (-1)).1 (mn.check node false) := by
  rw [← countEnabled_of_perm hperm]
  unfold vecMasternodeLastPaid countEnabled checkAll
  simp only [List.filterMap_map]
  rfl

/-- The queue is read off the list one masternode at a time, whatever the order
of the list. -/
theorem exists_paymentQueue (node : NodeView) (nBlockHeight : Int)
    (fFilterSigTime : Bool) (man : CMasternodeMan) :
    ∃ f : CMasternode → Option Entry, (∀ mn s, f mn = some s → s.2 = mn.vin) ∧
      ∀ man' : CMasternodeMan, man'.vMasternodes.Perm man.vMasternodes →
        man'.paymentQueue node nBlockHeight fFilterSigTime =
          man'.vMasternodes.filterMap f := by
  have hvin : ∀ (fFilter : Bool) (nMnCount : Int) (mn : CMasternode) (s : Entry),
      queueEntry node nBlockHeight fFilter nMnCount (mn.check node false) = some s →
        s.2 = mn.vin := by
    intro fFilter nMnCount mn s h
    rw [queueEntry_vin h, CMasternode.check_vin]
  generalize hcount : (man.countEnabled node (-1)).1 = nMnCount
  have hlength : ∀ man' : CMasternodeMan,
      man'.vMasternodes.Perm man.vMasternodes →
        (man'.vecMasternodeLastPaid node nBlockHeight fFilterSigTime).length =
          (man.vecMasternodeLastPaid node nBlockHeight fFilterSigTime).length := by
    intro man' hperm
    rw [vecMasternodeLastPaid_eq hperm,
      vecMasternodeLastPaid_eq (List.Perm.refl man.vMasternodes)]
    exact (hperm.filterMap _).length_eq
  by_cases hfew : fFilterSigTime ∧
      ((man.vecMasternodeLastPaid node nBlockHeight fFilterSigTime).length : Int) <
        nMnCount / 3
  · refine ⟨_, hvin false nMnCount, ?_⟩
    intro man' hperm
    unfold paymentQueue
    simp only [hlength man' hperm, countEnabled_of_perm hperm, hcount, if_pos hfew]
    rw [vecMasternodeLastPaid_eq hperm, hcount]
  · refine ⟨_, hvin fFilterSigTime nMnCount, ?_⟩
    intro man' hperm
    unfold paymentQueue
    simp only [hlength man' hperm, countEnabled_of_perm hperm, hcount, if_neg hfew]
    rw [vecMasternodeLastPaid_eq hperm, hcount]

/-- The score by which the queue picks an entry. -/
def entryScore (node : NodeView) (nBlockHeight : Int) (s : Entry) : Nat :=
  (node.hashes.calculateScore node.blockHash node.scoreHash s.2.prevout
    (nBlockHeight - 100)).1.toNat

/-- The loop picks the best of the first entries. -/
theorem bestLoop_eq (node : NodeView) (man : CMasternodeMan)
    (nBlockHeight nTenthNetwork : Int)
    {l : List Entry} (hfound : ∀ s ∈ l, ∃ mn, man.find s.2 = some mn)
    (best : Option Entry) (nHigh : Uint256) (nCountTenth : Int) :
    bestLoop node nBlockHeight nTenthNetwork man
        (best.bind fun s => man.find s.2) nHigh nCountTenth l =
      (firstBest (entryScore node nBlockHeight) best nHigh.toNat
        (l.take (max 1 (nTenthNetwork - nCountTenth)).toNat)).bind
        fun s => man.find s.2 := by
  induction l generalizing best nHigh nCountTenth with
  | nil => simp [bestLoop, firstBest]
  | cons s l ih =>
      obtain ⟨pmn, hpmn⟩ := hfound s (by simp)
      have hrest : ∀ s ∈ l, ∃ mn, man.find s.2 = some mn :=
        fun s hs => hfound s (by simp [hs])
      have hscore : (pmn.calculateScore node (nBlockHeight - 100)).1.toNat =
          entryScore node nBlockHeight s := by
        rw [entryScore, ← ((find_eq_some_iff man s.2 pmn).mp hpmn).2]
        rfl
      obtain ⟨k, hk⟩ : ∃ k, (max 1 (nTenthNetwork - nCountTenth)).toNat = k + 1 :=
        ⟨(max 1 (nTenthNetwork - nCountTenth)).toNat - 1, by omega⟩
      -- the loop goes on exactly if more entries are taken
      have hrun : ∀ (best : Option Entry) (nHigh : Uint256),
          (if nTenthNetwork ≤ nCountTenth + 1 then best.bind fun s => man.find s.2
            else bestLoop node nBlockHeight nTenthNetwork man
              (best.bind fun s => man.find s.2) nHigh (nCountTenth + 1) l) =
          (firstBest (entryScore node nBlockHeight) best nHigh.toNat (l.take k)).bind
            fun s => man.find s.2 := by
        intro best nHigh
        by_cases hstop : nTenthNetwork ≤ nCountTenth + 1
        · obtain rfl : k = 0 := by omega
          simp [hstop, firstBest]
        · have hnext : k = (max 1 (nTenthNetwork - (nCountTenth + 1))).toNat := by
            omega
          rw [if_neg hstop, ih hrest, ← hnext]
      unfold bestLoop
      rw [hk, List.take_succ_cons, firstBest, hpmn, ← hscore]
      dsimp only
      generalize (pmn.calculateScore node (nBlockHeight - 100)).1 = n
      by_cases hbeats : nHigh < n
      · have hlt : nHigh.toNat < n.toNat := hbeats
        simpa only [if_pos hbeats, if_pos hlt, Option.bind_some, hpmn] using
          hrun (some s) n
      · have hlt : ¬nHigh.toNat < n.toNat := hbeats
        simpa only [if_neg hbeats, if_neg hlt] using hrun best nHigh

/-- The number of entries that the queue looks at. -/
def nTenth (node : NodeView) (man : CMasternodeMan) : Nat :=
  (max 1 ((man.countEnabled node (-1)).1 / 10)).toNat

/-- Every entry of the queue belongs to a masternode of the list. -/
theorem queue_found (man : CMasternodeMan) {nBlockHeight : Int}
    {fFilterSigTime : Bool} {s : Entry}
    (hs : s ∈ man.paymentQueue node nBlockHeight fFilterSigTime) :
    ∃ mn, (man.checkAll node).find s.2 = some mn := by
  obtain ⟨f, hf, hqueue⟩ := exists_paymentQueue node nBlockHeight fFilterSigTime man
  rw [hqueue man (List.Perm.refl _), List.mem_filterMap] at hs
  obtain ⟨mn, hmn, hs⟩ := hs
  refine ⟨mn.check node false, (find_eq_some_iff _ _ _).mpr ⟨?_, ?_⟩⟩
  · exact List.mem_map_of_mem hmn
  · rw [hf mn s hs, CMasternode.check_vin]

theorem nTenth_of_perm {man man' : CMasternodeMan}
    (hperm : man'.vMasternodes.Perm man.vMasternodes) :
    man'.nTenth node = man.nTenth node := by
  rw [nTenth, nTenth, countEnabled_of_perm hperm]

/-- Entries that lead to the same masternode are the same. -/
theorem eq_of_find_eq (man : CMasternodeMan) {nBlockHeight : Int}
    {fFilterSigTime : Bool} {best best' : Option Entry}
    (hbest : ∀ s ∈ best, s ∈ man.paymentQueue node nBlockHeight fFilterSigTime)
    (hbest' : ∀ s ∈ best', s ∈ man.paymentQueue node nBlockHeight fFilterSigTime)
    (hsame : (best.bind fun s => (man.checkAll node).find s.2) =
      best'.bind fun s => (man.checkAll node).find s.2) : best = best' := by
  obtain ⟨f, hf, hqueue⟩ := exists_paymentQueue node nBlockHeight fFilterSigTime man
  have hnames := nodup_entries man hf
  rw [← hqueue man (List.Perm.refl _)] at hnames
  cases best with
  | none =>
      cases best' with
      | none => rfl
      | some t =>
          obtain ⟨mn, hmn⟩ := queue_found man (hbest' t rfl)
          simp [hmn] at hsame
  | some s =>
      obtain ⟨mn, hmn⟩ := queue_found man (hbest s rfl)
      rw [Option.bind_some, hmn] at hsame
      cases best' with
      | none => simp at hsame
      | some t =>
          have hprevout : s.2.prevout = t.2.prevout :=
            ((find_eq_some_iff _ _ _).mp hmn).2.symm.trans
              ((find_eq_some_iff _ _ _).mp hsame.symm).2
          rw [List.inj_on_of_nodup_map hnames (hbest s rfl) (hbest' t rfl) hprevout]

/-- The masternode to pay is the selected one. -/
theorem getNextMasternode_eq (man : CMasternodeMan) (nBlockHeight : Int)
    (fFilterSigTime : Bool) (hsort : SortsDown Prod.fst sort) :
    man.getNextMasternodeInQueueForPayment node sort nBlockHeight fFilterSigTime =
      ((selection (entryScore node nBlockHeight) 0 sort (man.nTenth node)
          (man.paymentQueue node nBlockHeight fFilterSigTime)).bind
        fun s => (man.checkAll node).find s.2,
      ((man.paymentQueue node nBlockHeight fFilterSigTime).length : Int)) := by
  have hfound : ∀ s ∈ sort (man.paymentQueue node nBlockHeight fFilterSigTime),
      ∃ mn, (man.checkAll node).find s.2 = some mn :=
    fun s hs => queue_found man ((hsort.perm _).mem_iff.mp hs)
  have hloop := bestLoop_eq node (man.checkAll node) nBlockHeight
    ((man.countEnabled node (-1)).1 / 10) hfound none 0 0
  rw [Int.sub_zero] at hloop
  exact Prod.ext hloop rfl

/-- The same masternode is paid for any order of the list. -/
def PaymentIndep (node : NodeView) (nBlockHeight : Int) (fFilterSigTime : Bool)
    (man : CMasternodeMan) : Prop :=
  ∀ sort, SortsDown Prod.fst sort → ∀ man' : CMasternodeMan,
    man'.vMasternodes.Perm man.vMasternodes →
      getNextMasternodeInQueueForPayment node sort nBlockHeight fFilterSigTime man' =
        getNextMasternodeInQueueForPayment node sort nBlockHeight fFilterSigTime man

/-- **The masternode to pay** does not depend on the order of the list if and
only if the queue decides it: one entry is among the first tenth whatever the
order of ties and has the best score, or none there has a score. -/
theorem paymentIndep_iff (node : NodeView) (nBlockHeight : Int)
    (fFilterSigTime : Bool) (man : CMasternodeMan) :
    PaymentIndep node nBlockHeight fFilterSigTime man ↔
      Decided Prod.fst (entryScore node nBlockHeight) 0 (man.nTenth node)
        (man.paymentQueue node nBlockHeight fFilterSigTime) := by
  obtain ⟨f, hf, hqueue⟩ := exists_paymentQueue node nBlockHeight fFilterSigTime man
  have hnames := nodup_entries man hf
  rw [← hqueue man (List.Perm.refl _)] at hnames
  rw [← selection_indep_iff hnames.of_map]
  constructor
  · intro hindep sort hsort l' hperm
    have hmem : ∀ l, l.Perm (man.paymentQueue node nBlockHeight fFilterSigTime) →
        ∀ s ∈ selection (entryScore node nBlockHeight) 0 sort (man.nTenth node) l,
          s ∈ man.paymentQueue node nBlockHeight fFilterSigTime := by
      intro l hl s hs
      rcases mem_of_firstBest hs with hnone | htake
      · exact absurd hnone (by simp)
      · exact ((hsort.perm l).trans hl).mem_iff.mp (List.mem_of_mem_take htake)
    refine eq_of_find_eq man (hmem l' hperm) (hmem _ (List.Perm.refl _)) ?_
    rw [hqueue man (List.Perm.refl _)] at hperm
    obtain ⟨vMasternodes, hreorder, rfl⟩ := exists_perm_filterMap f hperm
    have hfind : ∀ vin, ((man.reorder hreorder).checkAll node).find vin =
        (man.checkAll node).find vin :=
      find_eq_of_perm (checkAll_perm hreorder)
    have hsame := congrArg Prod.fst
      (hindep sort hsort (man.reorder hreorder) hreorder)
    rw [getNextMasternode_eq _ _ _ hsort, getNextMasternode_eq _ _ _ hsort,
      hqueue (man.reorder hreorder) hreorder, nTenth_of_perm hreorder] at hsame
    simpa only [hfind, reorder_vMasternodes] using hsame
  · intro hsame sort hsort man' hperm
    have hentries : (man'.paymentQueue node nBlockHeight fFilterSigTime).Perm
        (man.paymentQueue node nBlockHeight fFilterSigTime) := by
      rw [hqueue man' hperm, hqueue man (List.Perm.refl _)]
      exact hperm.filterMap f
    have hfind : ∀ vin, (man'.checkAll node).find vin = (man.checkAll node).find vin :=
      find_eq_of_perm (checkAll_perm hperm)
    rw [getNextMasternode_eq man' _ _ hsort, getNextMasternode_eq man _ _ hsort,
      hentries.length_eq, nTenth_of_perm hperm]
    simp only [hfind]
    rw [hsame sort hsort _ hentries]

/-- **Both results** are the same for any order of the list of masternodes if
and only if no compact scores that are ranked coincide and the queue decides
whom to pay. -/
theorem results_indep_iff (node : NodeView) (man : CMasternodeMan)
    (nBlockHeight minProtocol : Int) (fOnlyActive : Bool)
    (nPaymentHeight : Int) (fFilterSigTime : Bool) :
    (RankIndep node nBlockHeight minProtocol fOnlyActive man ∧
      PaymentIndep node nPaymentHeight fFilterSigTime man) ↔
    ((node.hashes.getBlockHash nBlockHeight).1 = none ∨
      ((man.vecMasternodeScores node nBlockHeight minProtocol fOnlyActive).map
        Prod.fst).Nodup) ∧
    Decided Prod.fst (entryScore node nPaymentHeight) 0 (man.nTenth node)
      (man.paymentQueue node nPaymentHeight fFilterSigTime) := by
  rw [rankIndep_iff, paymentIndep_iff]

/-- Two outputs of one transaction. -/
def tiedMasternode (n : Nat) : CMasternode where
  vin := { prevout := ⟨7, n⟩ }

def tiedMasternodes : CMasternodeMan where
  vMasternodes := [tiedMasternode 656, tiedMasternode 1124]
  distinct := by decide

def swappedMasternodes : CMasternodeMan where
  vMasternodes := [tiedMasternode 1124, tiedMasternode 656]
  distinct := by decide

/-- The double SHA-256 hashes that the scores of the two are made of; their
distances from the first one have the compact form `0x2100a3cc`. -/
def tiedNode : NodeView where
  hashes := { chainActive := [1, 2, 3] }
  blockHash := fun _ =>
    0x5b07e8223fec7cd8892965857d76e845fd821ad040ec15a04e4bb895daa6f67c
  scoreHash := fun _ aux =>
    if aux = 7 + 656 then
      0xfed4164845f0f9bb22d1056875e8dad3b6dc4bf64a453bbbdd02cf4e81ddbd09
    else
      0xfed492d81dac60f763ecbd35a4747c416adba1768347a0e5b220c0510539027b

theorem tied_ranks_follow_order :
    ¬(RankIndep tiedNode 2 0 true tiedMasternodes ∧
      PaymentIndep tiedNode 102 true tiedMasternodes) := by
  intro hindep
  have hrank := hindep.1 (sortDown Prod.fst) sortDown_sortsDown
    swappedMasternodes (List.Perm.swap _ _ []) (tiedMasternode 656).vin
  exact absurd hrank (by decide +kernel)

end CMasternodeMan

end Agrarian.Masternode
