import Agrarian.Coins.Coins
import Agrarian.Lib.KeyedMap

/-!
# The cache over a coins view

`CCoinsViewCache` keeps records of the view below it, each with two flags:
`DIRTY` when it may differ from what the view below holds, `FRESH` when the
view below holds nothing, or a pruned record, for its transaction.  Caches
are stacked; a cache is written into the one below by `Flush`.

A stack of caches is a list, the top first, over a base view.  The base is
any `CCoinsView` that keeps what is written to it (`Lawful`); the coin
database is one.  Against it stands the flat model: one map from transaction
to coins for every level, written directly.
-/

namespace Agrarian.Coins

open Agrarian.Lib

/-! ## Views -/

structure CCoinsCacheEntry where
  coins : CCoins := {}
  /-- `DIRTY`: potentially different from the version in the parent view. -/
  dirty : Bool := false
  /-- `FRESH`: the parent view does not have this entry, or it is pruned. -/
  fresh : Bool := false

abbrev CCoinsMap := KeyedMap Uint256 CCoinsCacheEntry

/-- A `CCoinsView` over some state. -/
structure CCoinsView (S : Type) where
  getCoins : S → Uint256 → Option CCoins
  getBestBlock : S → Uint256
  batchWrite : S → CCoinsMap → Uint256 → S

/-- What a view holds for a transaction; a missing record is an empty one. -/
def CCoinsView.coinsOf {S : Type} (view : CCoinsView S) (s : S)
    (txid : Uint256) : CCoins :=
  (view.getCoins s txid).getD CCoins.empty

/-- A view that keeps what is written to it: dirty entries replace its
records, and other entries may be written when they say nothing new. -/
structure CCoinsView.Lawful {S : Type} (view : CCoinsView S) : Prop where
  batchWrite_dirty : ∀ s mapCoins hash txid (e : CCoinsCacheEntry),
    mapCoins.find? txid = some e → e.dirty = true →
    CCoins.Same (view.coinsOf (view.batchWrite s mapCoins hash) txid) e.coins
  batchWrite_other : ∀ s mapCoins hash txid,
    (∀ e : CCoinsCacheEntry, mapCoins.find? txid = some e →
      e.dirty = false ∧ CCoins.Same e.coins (view.coinsOf s txid)) →
    CCoins.Same (view.coinsOf (view.batchWrite s mapCoins hash) txid)
      (view.coinsOf s txid)

/-! ### The coin database -/

/-- The records of `CCoinsViewDB`, and the best block under its own key. -/
structure CoinsDB where
  coins : KeyedMap Uint256 CCoins
  hashBestChain : Option Uint256

/-- What `BatchWrite` does to one record of the database: dirty entries are
written, or erased when they are pruned. -/
def CoinsDB.slot (old : Option CCoins) (e : CCoinsCacheEntry) :
    Option CCoins :=
  if e.dirty then
    if e.coins.isPruned then none else some e.coins
  else old

def CCoinsViewDB : CCoinsView CoinsDB where
  getCoins db txid := db.coins.find? txid
  getBestBlock db := db.hashBestChain.getD 0
  batchWrite db mapCoins hashBlock :=
    { coins := (KeyedMap.writeAll (fun old e => some (CoinsDB.slot old e))
        mapCoins db.coins).getD db.coins
      hashBestChain :=
        if hashBlock ≠ 0 then some hashBlock else db.hashBestChain }

/-- The record the database holds after a batch. -/
private theorem CCoinsViewDB_getCoins (db : CoinsDB) (mapCoins : CCoinsMap)
    (hash txid : Uint256) :
    CCoinsViewDB.getCoins (CCoinsViewDB.batchWrite db mapCoins hash) txid =
      (mapCoins.find? txid).elim (db.coins.find? txid)
        (CoinsDB.slot (db.coins.find? txid)) := by
  obtain ⟨m', hm', hfind⟩ :=
    KeyedMap.writeAll_total CoinsDB.slot mapCoins db.coins
  show ((KeyedMap.writeAll _ mapCoins db.coins).getD db.coins).find? txid = _
  rw [hm', Option.getD_some, hfind txid]

theorem CCoinsViewDB_lawful : CCoinsViewDB.Lawful where
  batchWrite_dirty := by
    intro db mapCoins hash txid e he hdirty
    unfold CCoinsView.coinsOf
    rw [CCoinsViewDB_getCoins, he, Option.elim_some, CoinsDB.slot, if_pos hdirty]
    split
    · next hpruned => exact CCoins.same_of_pruned rfl hpruned
    · exact CCoins.Same.refl _
  batchWrite_other := by
    intro db mapCoins hash txid hother
    unfold CCoinsView.coinsOf
    rw [CCoinsViewDB_getCoins]
    cases he : mapCoins.find? txid with
    | none => exact CCoins.Same.refl _
    | some e =>
        rw [Option.elim_some, CoinsDB.slot, (hother e he).1,
          if_neg Bool.false_ne_true]
        exact CCoins.Same.refl _

/-! ## `CCoinsViewCache` -/

/-- `modifier` is `hasModifier` with the entry the live `CCoinsModifier`
points to. -/
structure CCoinsViewCache where
  cacheCoins : CCoinsMap := KeyedMap.empty
  hashBlock : Uint256 := 0
  modifier : Option Uint256 := none

/-- A stack of caches, the top first, over the state of a base view. -/
structure Views (S : Type) where
  stack : List CCoinsViewCache
  base : S

variable {S : Type} (view : CCoinsView S)

/-- `GetCoins` by way of `FetchCoins`: a cache that misses asks the view
below and keeps the answer. -/
def getCoins (base : S) (txid : Uint256) :
    List CCoinsViewCache → Option CCoins × List CCoinsViewCache
  | [] => (view.getCoins base txid, [])
  | c :: below =>
      match c.cacheCoins.find? txid with
      | some e => (some e.coins, c :: below)
      | none =>
          match getCoins base txid below with
          | (none, below) => (none, c :: below)
          | (some tmp, below) =>
              let ret : CCoinsCacheEntry :=
                { coins := tmp, fresh := tmp.isPruned }
              (some tmp,
                { c with cacheCoins := c.cacheCoins.insert txid ret } :: below)

/-- Spent transactions may or may not count as present. -/
def haveCoins (base : S) (txid : Uint256) (stack : List CCoinsViewCache) :
    Bool :=
  match (getCoins view base txid stack).1 with
  | some coins => !coins.vout.isEmpty
  | none => false

def getBestBlock (base : S) :
    List CCoinsViewCache → Uint256 × List CCoinsViewCache
  | [] => (view.getBestBlock base, [])
  | c :: below =>
      if c.hashBlock = 0 then
        let (hashBlock, below) := getBestBlock base below
        (hashBlock, { c with hashBlock } :: below)
      else (c.hashBlock, c :: below)

/-- The entry `ModifyCoins` starts from: the cached one, else one made from
the record of the view below, fresh when that is missing or pruned. -/
def modifyEntry (base : S) (txid : Uint256) (c : CCoinsViewCache)
    (below : List CCoinsViewCache) :
    CCoinsCacheEntry × List CCoinsViewCache :=
  match c.cacheCoins.find? txid with
  | some e => (e, below)
  | none =>
      match getCoins view base txid below with
      | (none, below) => ({ coins := CCoins.empty, fresh := true }, below)
      | (some coins, below) => ({ coins, fresh := coins.isPruned }, below)

/-- `ModifyCoins`; `none` when an assertion fails. -/
def modifyCoins (base : S) (txid : Uint256) :
    List CCoinsViewCache → Option (List CCoinsViewCache)
  | [] => none
  | c :: below =>
      if c.modifier.isSome then none
      else
        let (e, below) := modifyEntry view base txid c below
        some ({ c with
          cacheCoins := c.cacheCoins.insert txid { e with dirty := true }
          modifier := some txid } :: below)

/-- A write through the live modifier. -/
def CCoinsViewCache.write (c : CCoinsViewCache) (coins : CCoins) :
    CCoinsViewCache :=
  match c.modifier with
  | none => c
  | some txid =>
      match c.cacheCoins.find? txid with
      | none => c
      | some e =>
          { c with cacheCoins := c.cacheCoins.insert txid { e with coins } }

/-- `~CCoinsModifier`. -/
def CCoinsViewCache.release (c : CCoinsViewCache) : CCoinsViewCache :=
  match c.modifier with
  | none => c
  | some txid =>
      match c.cacheCoins.find? txid with
      | none => { c with modifier := none }
      | some e =>
          let e := { e with coins := e.coins.cleanup }
          if e.fresh && e.coins.isPruned then
            { c with
              cacheCoins := c.cacheCoins.erase txid
              modifier := none }
          else
            { c with
              cacheCoins := c.cacheCoins.insert txid e
              modifier := none }

/-- What `BatchWrite` does to one entry of the parent cache, given the
child's: the outer `none` is the failed assertion that the child's entry is
fresh. -/
def batchWriteSlot (itUs : Option CCoinsCacheEntry) (it : CCoinsCacheEntry) :
    Option (Option CCoinsCacheEntry) :=
  if it.dirty then
    match itUs with
    | none =>
        if !it.coins.isPruned then
          if it.fresh then
            some (some { coins := it.coins, dirty := true, fresh := true })
          else none
        else some none
    | some us =>
        if us.fresh && it.coins.isPruned then some none
        else some (some { us with coins := it.coins, dirty := true })
  else some itUs

def CCoinsViewCache.batchWrite (c : CCoinsViewCache) (mapCoins : CCoinsMap)
    (hashBlockIn : Uint256) : Option CCoinsViewCache :=
  if c.modifier.isSome then none
  else
    (KeyedMap.writeAll batchWriteSlot mapCoins c.cacheCoins).map
      fun cacheCoins => { c with cacheCoins, hashBlock := hashBlockIn }

def Views.flush (vs : Views S) : Option (Views S) :=
  match vs.stack with
  | [] => none
  | [c] =>
      some
        { stack := [{ c with cacheCoins := KeyedMap.empty }]
          base := view.batchWrite vs.base c.cacheCoins c.hashBlock }
  | c :: parent :: below =>
      (parent.batchWrite c.cacheCoins c.hashBlock).map fun parent =>
        { vs with
          stack := { c with cacheCoins := KeyedMap.empty } :: parent :: below }

/-- The operations of the cache at the top of the stack, and the stack
discipline: a new cache on top, the top dropped.  `FetchCoins`, `GetCoins`,
`AccessCoins` and `HaveCoins` all fetch. -/
inductive ViewOp where
  | fetch (txid : Uint256)
  | getBestBlock
  | setBestBlock (hashBlock : Uint256)
  | modify (txid : Uint256)
  | write (coins : CCoins)
  | release
  | push
  | flush
  | pop

/-- `none` when an assertion fails. -/
def Views.step (vs : Views S) : ViewOp → Option (Views S)
  | .fetch txid =>
      some { vs with stack := (getCoins view vs.base txid vs.stack).2 }
  | .getBestBlock =>
      some { vs with stack := (getBestBlock view vs.base vs.stack).2 }
  | .setBestBlock hashBlock =>
      match vs.stack with
      | [] => none
      | c :: below => some { vs with stack := { c with hashBlock } :: below }
  | .modify txid =>
      (modifyCoins view vs.base txid vs.stack).map fun stack =>
        { vs with stack }
  | .write coins =>
      match vs.stack with
      | [] => none
      | c :: below => some { vs with stack := c.write coins :: below }
  | .release =>
      match vs.stack with
      | [] => none
      | c :: below => some { vs with stack := c.release :: below }
  | .push => some { vs with stack := {} :: vs.stack }
  | .flush => vs.flush view
  | .pop =>
      match vs.stack with
      | [] => none
      | c :: below =>
          if c.modifier.isSome then none else some { vs with stack := below }

/-! ## The coins of a level -/

/-- The coins a read at the top of the stack returns. -/
def coinsAt (base : S) : List CCoinsViewCache → Uint256 → CCoins
  | [], txid => view.coinsOf base txid
  | c :: below, txid =>
      match c.cacheCoins.find? txid with
      | some e => e.coins
      | none => coinsAt base below txid

/-- The view directly below has an entry of its own; the base always
counts. -/
def HasEntry (txid : Uint256) : List CCoinsViewCache → Prop
  | [] => True
  | c :: _ => ∃ e, c.cacheCoins.find? txid = some e

/-- What the flags of a cache say about the views below it. -/
structure LevelInv (base : S) (c : CCoinsViewCache)
    (below : List CCoinsViewCache) : Prop where
  /-- Fresh entries are absent or pruned below. -/
  fresh : ∀ txid (e : CCoinsCacheEntry), c.cacheCoins.find? txid = some e →
    e.fresh = true → (coinsAt view base below txid).isPruned = true
  /-- Entries that are not dirty repeat the view below. -/
  clean : ∀ txid (e : CCoinsCacheEntry), c.cacheCoins.find? txid = some e →
    e.dirty = false → CCoins.Same e.coins (coinsAt view base below txid)
  /-- An entry that is not fresh was pulled in from below. -/
  pulled : ∀ txid (e : CCoinsCacheEntry), c.cacheCoins.find? txid = some e →
    e.fresh = false → HasEntry txid below

/-- The invariant of a stack; only its top can have a live modifier. -/
def StackInv (base : S) : List CCoinsViewCache → Prop
  | [] => True
  | c :: below => LevelInv view base c below ∧
      (∀ p ∈ below, p.modifier = none) ∧ StackInv base below

/-- The flat model: one map for every level and one for the base, and the
transaction of the live modifier. -/
structure FlatViews where
  maps : List (Uint256 → CCoins)
  modifier : Option Uint256

/-- Writes go to the map at the top; a flush copies it to the map below.  The
release of a modifier drops the spent outputs at the end of the record. -/
def FlatViews.step (flat : FlatViews) : ViewOp → FlatViews
  | .fetch _ => flat
  | .getBestBlock => flat
  | .setBestBlock _ => flat
  | .modify txid => { flat with modifier := some txid }
  | .write coins =>
      match flat.maps, flat.modifier with
      | top :: rest, some txid =>
          { flat with maps := Function.update top txid coins :: rest }
      | _, _ => flat
  | .release =>
      match flat.maps, flat.modifier with
      | top :: rest, some txid =>
          { maps := Function.update top txid (top txid).cleanup :: rest
            modifier := none }
      | _, _ => flat
  | .push =>
      match flat.maps with
      | top :: rest => { flat with maps := top :: top :: rest }
      | [] => flat
  | .flush =>
      match flat.maps with
      | top :: _ :: rest => { flat with maps := top :: top :: rest }
      | _ => flat
  | .pop => { flat with maps := flat.maps.tail }

/-- The discipline of the callers: at most one modifier is live, writes go
through it, and the stack changes only without one. -/
def FlatViews.Allowed (flat : FlatViews) : ViewOp → Prop
  | .fetch _ => True
  | .getBestBlock => True
  | .setBestBlock _ => 2 ≤ flat.maps.length
  | .modify _ => 2 ≤ flat.maps.length ∧ flat.modifier = none
  | .write _ => flat.modifier ≠ none
  | .release => flat.modifier ≠ none
  | .push => flat.modifier = none
  | .flush => 2 ≤ flat.maps.length ∧ flat.modifier = none
  | .pop => 2 ≤ flat.maps.length ∧ flat.modifier = none

/-- Every level holds the coins of its map. -/
def Agree (base : S) :
    List CCoinsViewCache → List (Uint256 → CCoins) → Prop
  | [], maps => ∃ flat, maps = [flat] ∧
      ∀ txid, CCoins.Same (view.coinsOf base txid) (flat txid)
  | c :: below, maps => ∃ flat rest, maps = flat :: rest ∧
      (∀ txid, CCoins.Same (coinsAt view base (c :: below) txid) (flat txid)) ∧
      Agree base below rest

variable {view}

section Level

variable {base : S} {c : CCoinsViewCache} {below below' : List CCoinsViewCache}

theorem coinsAt_of_find {txid : Uint256} {e : CCoinsCacheEntry}
    (h : c.cacheCoins.find? txid = some e) :
    coinsAt view base (c :: below) txid = e.coins := by
  rw [coinsAt, h]

theorem coinsAt_of_miss {txid : Uint256}
    (h : c.cacheCoins.find? txid = none) :
    coinsAt view base (c :: below) txid = coinsAt view base below txid := by
  rw [coinsAt, h]

/-- A level whose view below is unchanged is unchanged. -/
theorem coinsAt_congr
    (h : ∀ t, coinsAt view base below' t = coinsAt view base below t)
    (t : Uint256) :
    coinsAt view base (c :: below') t = coinsAt view base (c :: below) t := by
  unfold coinsAt
  split
  · rfl
  · exact h t

/-- Writing one entry changes the coins of its transaction only. -/
theorem coinsAt_insert {c' : CCoinsViewCache} {txid : Uint256}
    {e : CCoinsCacheEntry}
    (hc : c'.cacheCoins = c.cacheCoins.insert txid e) (t : Uint256) :
    coinsAt view base (c' :: below) t =
      if t = txid then e.coins else coinsAt view base (c :: below) t := by
  by_cases h : t = txid
  · rw [if_pos h]
    apply coinsAt_of_find
    rw [hc, h, KeyedMap.find?_insert_self]
  · unfold coinsAt
    rw [if_neg h, hc, KeyedMap.find?_insert_ne _ _ h]

theorem LevelInv.congr (hlevel : LevelInv view base c below)
    (hcoins : ∀ t, coinsAt view base below' t = coinsAt view base below t)
    (hentry : ∀ t, HasEntry t below → HasEntry t below') :
    LevelInv view base c below' where
  fresh := by
    intro txid e he hfresh
    rw [hcoins]
    exact hlevel.fresh txid e he hfresh
  clean := by
    intro txid e he hdirty
    rw [hcoins]
    exact hlevel.clean txid e he hdirty
  pulled := by
    intro txid e he hfresh
    exact hentry txid (hlevel.pulled txid e he hfresh)

/-- An entry may be written when its flags are right. -/
theorem LevelInv.insert {c' : CCoinsViewCache} {txid : Uint256}
    {e : CCoinsCacheEntry} (hlevel : LevelInv view base c below)
    (hc : c'.cacheCoins = c.cacheCoins.insert txid e)
    (hfresh : e.fresh = true →
      (coinsAt view base below txid).isPruned = true)
    (hclean : e.dirty = false →
      CCoins.Same e.coins (coinsAt view base below txid))
    (hpulled : e.fresh = false → HasEntry txid below) :
    LevelInv view base c' below := by
  have hfind : ∀ t (x : CCoinsCacheEntry), c'.cacheCoins.find? t = some x →
      (t = txid ∧ x = e) ∨ c.cacheCoins.find? t = some x := by
    intro t x hx
    rw [hc, KeyedMap.find?_insert] at hx
    by_cases h : t = txid
    · rw [if_pos h] at hx
      exact Or.inl ⟨h, (Option.some.inj hx).symm⟩
    · rw [if_neg h] at hx
      exact Or.inr hx
  constructor
  · intro t x hx hflag
    rcases hfind t x hx with ⟨rfl, rfl⟩ | h
    · exact hfresh hflag
    · exact hlevel.fresh t x h hflag
  · intro t x hx hflag
    rcases hfind t x hx with ⟨rfl, rfl⟩ | h
    · exact hclean hflag
    · exact hlevel.clean t x h hflag
  · intro t x hx hflag
    rcases hfind t x hx with ⟨rfl, rfl⟩ | h
    · exact hpulled hflag
    · exact hlevel.pulled t x h hflag

end Level

/-! ## Reads -/

/-- The modifier of the stack's top points at a dirty entry. -/
def Live : List CCoinsViewCache → Option Uint256 → Prop
  | [], modifier => modifier = none
  | c :: _, modifier => c.modifier = modifier ∧
      ∀ txid, c.modifier = some txid →
        ∃ e, c.cacheCoins.find? txid = some e ∧ e.dirty = true

variable (view) in
/-- `stack'` is `stack` with entries fetched into its caches. -/
structure Filled (base : S) (stack stack' : List CCoinsViewCache) : Prop where
  coins : ∀ t, coinsAt view base stack' t = coinsAt view base stack t
  entry : ∀ t, HasEntry t stack → HasEntry t stack'
  live : ∀ modifier, Live stack modifier → Live stack' modifier
  inv : StackInv view base stack'
  modifiers : stack'.map CCoinsViewCache.modifier =
    stack.map CCoinsViewCache.modifier
  agree : ∀ maps, Agree view base stack maps → Agree view base stack' maps

theorem Filled.refl {base : S} {stack : List CCoinsViewCache}
    (hinv : StackInv view base stack) : Filled view base stack stack :=
  ⟨fun _ => rfl, fun _ h => h, fun _ h => h, hinv, rfl, fun _ h => h⟩

private theorem modifiers_none {below below' : List CCoinsViewCache}
    (hmod : below'.map CCoinsViewCache.modifier =
      below.map CCoinsViewCache.modifier)
    (hnone : ∀ p ∈ below, p.modifier = none) :
    ∀ p ∈ below', p.modifier = none := by
  intro p hp
  have hmem := List.mem_map_of_mem (f := CCoinsViewCache.modifier) hp
  rw [hmod] at hmem
  obtain ⟨q, hq, heq⟩ := List.mem_map.mp hmem
  rw [← heq, hnone q hq]

/-- A cache over a filled stack, itself unchanged or with one entry more that
repeats what the level held. -/
theorem Filled.cons {base : S} {c c' : CCoinsViewCache}
    {below below' : List CCoinsViewCache} (hfill : Filled view base below below')
    (hnone : ∀ p ∈ below, p.modifier = none)
    (hlevel : LevelInv view base c' below')
    (hmod : c'.modifier = c.modifier)
    (hcoins : ∀ t, coinsAt view base (c' :: below') t =
      coinsAt view base (c :: below) t)
    (hkeep : ∀ t (e : CCoinsCacheEntry), c.cacheCoins.find? t = some e →
      c'.cacheCoins.find? t = some e) :
    Filled view base (c :: below) (c' :: below') where
  coins := hcoins
  entry := fun t ⟨e, he⟩ => ⟨e, hkeep t e he⟩
  live := by
    rintro modifier ⟨hc, hlive⟩
    refine ⟨hmod.trans hc, fun txid htxid => ?_⟩
    obtain ⟨e, he, hdirty⟩ := hlive txid (hmod ▸ htxid)
    exact ⟨e, hkeep txid e he, hdirty⟩
  inv := ⟨hlevel, modifiers_none hfill.modifiers hnone, hfill.inv⟩
  modifiers := by rw [List.map_cons, List.map_cons, hmod, hfill.modifiers]
  agree := by
    rintro maps ⟨flat, rest, rfl, hflat, hrest⟩
    refine ⟨flat, rest, rfl, ?_, hfill.agree rest hrest⟩
    intro txid
    rw [hcoins]
    exact hflat txid

/-- **Reads.**  A read returns the coins of the level, nothing when it holds
none, and changes no level. -/
theorem getCoins_spec (base : S) (txid : Uint256)
    (stack : List CCoinsViewCache) (hinv : StackInv view base stack) :
    (getCoins view base txid stack).1.getD CCoins.empty =
        coinsAt view base stack txid ∧
      ((getCoins view base txid stack).1.isSome = true →
        HasEntry txid (getCoins view base txid stack).2) ∧
      Filled view base stack (getCoins view base txid stack).2 := by
  induction stack with
  | nil => exact ⟨rfl, fun _ => trivial, Filled.refl hinv⟩
  | cons c below ih =>
      obtain ⟨hlevel, hnone, hbelow⟩ := hinv
      obtain ⟨hread, hhas, hfill⟩ := ih hbelow
      unfold getCoins
      cases hfind : c.cacheCoins.find? txid with
      | some e =>
          exact ⟨(coinsAt_of_find hfind).symm, fun _ => ⟨e, hfind⟩,
            Filled.refl ⟨hlevel, hnone, hbelow⟩⟩
      | none =>
          rw [← coinsAt_of_miss hfind] at hread
          have hlevel' := hlevel.congr hfill.coins hfill.entry
          generalize hr : getCoins view base txid below = r at *
          obtain ⟨fetched, below'⟩ := r
          simp only at hread hhas hfill hlevel'
          cases fetched with
          | none =>
              refine ⟨hread, (fun h => absurd h Bool.false_ne_true), ?_⟩
              apply hfill.cons hnone hlevel' rfl
              · exact coinsAt_congr hfill.coins
              · exact fun t e he => he
          | some tmp =>
              have htmp : tmp = coinsAt view base below' txid := by
                rw [hfill.coins, ← coinsAt_of_miss hfind]
                exact hread
              refine ⟨hread, fun _ => ⟨_, KeyedMap.find?_insert_self _ _ _⟩, ?_⟩
              apply hfill.cons hnone
              · apply hlevel'.insert rfl
                · intro hpruned
                  rw [← htmp]
                  exact hpruned
                · intro _
                  rw [← htmp]
                · exact fun _ => hhas rfl
              · rfl
              · intro t
                rw [coinsAt_insert (c := c) rfl]
                by_cases h : t = txid
                · rw [if_pos h, h]
                  exact hread
                · rw [if_neg h]
                  exact coinsAt_congr hfill.coins t
              · intro t e he
                have hne : t ≠ txid := by
                  intro h
                  rw [h, hfind] at he
                  cases he
                exact (KeyedMap.find?_insert_ne _ _ hne).trans he

theorem getBestBlock_filled (base : S) (stack : List CCoinsViewCache)
    (hinv : StackInv view base stack) :
    Filled view base stack (getBestBlock view base stack).2 := by
  induction stack with
  | nil => exact Filled.refl hinv
  | cons c below ih =>
      obtain ⟨hlevel, hnone, hbelow⟩ := hinv
      have hfill := ih hbelow
      unfold getBestBlock
      by_cases hzero : c.hashBlock = 0
      · rw [if_pos hzero]
        have hlevel' := hlevel.congr hfill.coins hfill.entry
        apply hfill.cons hnone
        · exact ⟨hlevel'.fresh, hlevel'.clean, hlevel'.pulled⟩
        · rfl
        · exact coinsAt_congr hfill.coins
        · exact fun t e he => he
      · rw [if_neg hzero]
        exact Filled.refl ⟨hlevel, hnone, hbelow⟩

/-! ## The refinement -/

variable (view) in
/-- The stack is in step with the flat maps. -/
structure Refines (vs : Views S) (flat : FlatViews) : Prop where
  inv : StackInv view vs.base vs.stack
  agree : Agree view vs.base vs.stack flat.maps
  live : Live vs.stack flat.modifier

/-- Fetching entries keeps the stack in step. -/
theorem Refines.filled {vs : Views S} {flat : FlatViews}
    {stack' : List CCoinsViewCache} (h : Refines view vs flat)
    (hfill : Filled view vs.base vs.stack stack') :
    Refines view { vs with stack := stack' } flat :=
  ⟨hfill.inv, hfill.agree _ h.agree, hfill.live _ h.live⟩

/-- A step of the top cache alone, with what it leaves at each level. -/
theorem Refines.top {base : S} {c c' : CCoinsViewCache}
    {below : List CCoinsViewCache} {flat flat' : FlatViews}
    {top top' : Uint256 → CCoins} {rest : List (Uint256 → CCoins)}
    (h : Refines view ⟨c :: below, base⟩ flat)
    (hmaps : flat.maps = top :: rest) (hmaps' : flat'.maps = top' :: rest)
    (hlevel : LevelInv view base c' below)
    (hcoins : ∀ txid, CCoins.Same (coinsAt view base (c' :: below) txid)
      (top' txid))
    (hlive : Live (c' :: below) flat'.modifier) :
    Refines view ⟨c' :: below, base⟩ flat' := by
  obtain ⟨⟨-, hnone, hbelow⟩, hagree, -⟩ := h
  obtain ⟨flat₀, rest₀, hmaps₀, -, hrest⟩ := hagree
  rw [hmaps] at hmaps₀
  obtain ⟨rfl, rfl⟩ := List.cons.inj hmaps₀
  exact ⟨⟨hlevel, hnone, hbelow⟩, ⟨top', rest, hmaps', hcoins, hrest⟩, hlive⟩

/-- The entry to be modified holds the coins of the level, and its flags are
right. -/
theorem modifyEntry_spec {base : S} (txid : Uint256) {c : CCoinsViewCache}
    {below : List CCoinsViewCache} (hlevel : LevelInv view base c below)
    (hbelow : StackInv view base below) :
    (modifyEntry view base txid c below).1.coins =
        coinsAt view base (c :: below) txid ∧
      ((modifyEntry view base txid c below).1.fresh = true →
        (coinsAt view base below txid).isPruned = true) ∧
      ((modifyEntry view base txid c below).1.fresh = false →
        HasEntry txid (modifyEntry view base txid c below).2) ∧
      Filled view base below (modifyEntry view base txid c below).2 := by
  unfold modifyEntry
  cases hfind : c.cacheCoins.find? txid with
  | some e =>
      exact ⟨(coinsAt_of_find hfind).symm, hlevel.fresh txid e hfind,
        hlevel.pulled txid e hfind, Filled.refl hbelow⟩
  | none =>
      obtain ⟨hread, hhas, hfill⟩ := getCoins_spec base txid below hbelow
      rw [coinsAt_of_miss hfind]
      generalize getCoins view base txid below = r at *
      obtain ⟨fetched, below'⟩ := r
      cases fetched with
      | none =>
          refine ⟨hread, fun _ => ?_, (fun h => absurd h.symm Bool.false_ne_true), hfill⟩
          rw [← hread]
          rfl
      | some coins =>
          refine ⟨hread, fun hpruned => ?_, fun _ => hhas rfl, hfill⟩
          rw [← hread]
          exact hpruned

/-- `ModifyCoins` succeeds, shows the coins of the level, and changes
none. -/
theorem modifyCoins_spec {base : S} (txid : Uint256) {c : CCoinsViewCache}
    {below : List CCoinsViewCache} {flat : FlatViews}
    (h : Refines view ⟨c :: below, base⟩ flat) (hmod : c.modifier = none) :
    ∃ stack', modifyCoins view base txid (c :: below) = some stack' ∧
      Refines view ⟨stack', base⟩ { flat with modifier := some txid } ∧
      ∀ t, coinsAt view base stack' t = coinsAt view base (c :: below) t := by
  obtain ⟨⟨hlevel, hnone, hbelow⟩, hagree, -⟩ := h
  obtain ⟨top, rest, hmaps, htop, hrest⟩ := hagree
  obtain ⟨hentry, hfresh, hpulled, hfill⟩ := modifyEntry_spec txid hlevel hbelow
  have hfree : ¬ c.modifier.isSome = true := by simp [hmod]
  have hstack : modifyCoins view base txid (c :: below) =
      some ({ c with
        cacheCoins := c.cacheCoins.insert txid
          { (modifyEntry view base txid c below).1 with dirty := true }
        modifier := some txid } ::
          (modifyEntry view base txid c below).2) := if_neg hfree
  generalize modifyEntry view base txid c below = r at *
  obtain ⟨e, below'⟩ := r
  simp only at hentry hfresh hpulled hfill hstack
  have hcoins : ∀ t, coinsAt view base ({ c with
      cacheCoins := c.cacheCoins.insert txid { e with dirty := true }
      modifier := some txid } :: below') t =
        coinsAt view base (c :: below) t := by
    intro t
    rw [coinsAt_insert (c := c) rfl]
    by_cases ht : t = txid
    · rw [if_pos ht, ht]
      exact hentry
    · rw [if_neg ht]
      exact coinsAt_congr hfill.coins t
  refine ⟨_, hstack, ⟨⟨?_, modifiers_none hfill.modifiers hnone, hfill.inv⟩,
    ?_, ?_⟩, hcoins⟩
  · apply (hlevel.congr hfill.coins hfill.entry).insert rfl
    · rw [hfill.coins]
      exact hfresh
    · intro hdirty
      cases hdirty
    · exact hpulled
  · refine ⟨top, rest, hmaps, fun t => ?_, hfill.agree _ hrest⟩
    rw [hcoins]
    exact htop t
  · refine ⟨rfl, fun t ht => ?_⟩
    obtain rfl := Option.some.inj ht
    exact ⟨_, KeyedMap.find?_insert_self _ _ _, rfl⟩

/-- A write through the modifier writes the map. -/
theorem write_spec {base : S} {c : CCoinsViewCache}
    {below : List CCoinsViewCache} {flat : FlatViews} {txid : Uint256}
    (h : Refines view ⟨c :: below, base⟩ flat)
    (hmod : flat.modifier = some txid) (coins : CCoins) :
    Refines view ⟨c.write coins :: below, base⟩ (flat.step (.write coins)) := by
  obtain ⟨top, rest, hmaps, htop, -⟩ := h.agree
  obtain ⟨hc, hlive⟩ := h.live
  have hctx : c.modifier = some txid := hc.trans hmod
  obtain ⟨e, he, hdirty⟩ := hlive txid hctx
  have hlevel := h.inv.1
  have hwrite : c.write coins =
      { c with cacheCoins := c.cacheCoins.insert txid { e with coins } } := by
    rw [CCoinsViewCache.write, hctx]
    simp only [he]
  have hstep : flat.step (.write coins) =
      { flat with maps := Function.update top txid coins :: rest } := by
    rw [FlatViews.step, hmaps, hmod]
  rw [hwrite, hstep]
  apply h.top hmaps rfl
  · apply hlevel.insert rfl
    · exact hlevel.fresh txid e he
    · intro hclean
      rw [show ({ e with coins := coins } : CCoinsCacheEntry).dirty = e.dirty
        from rfl, hdirty] at hclean
      cases hclean
    · exact hlevel.pulled txid e he
  · intro t
    rw [coinsAt_insert (c := c) rfl]
    by_cases ht : t = txid
    · rw [if_pos ht, ht, Function.update_self]
    · rw [if_neg ht, Function.update_of_ne ht]
      exact htop t
  · refine ⟨hc, fun t ht => ?_⟩
    obtain rfl := Option.some.inj (hctx.symm.trans ht)
    exact ⟨_, KeyedMap.find?_insert_self _ _ _, hdirty⟩

/-- The modifier's destructor cleans the record up; a fresh entry that is
pruned by now is dropped, and the view below is as empty. -/
theorem release_spec {base : S} {c : CCoinsViewCache}
    {below : List CCoinsViewCache} {flat : FlatViews} {txid : Uint256}
    (h : Refines view ⟨c :: below, base⟩ flat)
    (hmod : flat.modifier = some txid) :
    Refines view ⟨c.release :: below, base⟩ (flat.step .release) := by
  obtain ⟨top, rest, hmaps, htop, -⟩ := h.agree
  obtain ⟨hc, hlive⟩ := h.live
  have hctx : c.modifier = some txid := hc.trans hmod
  obtain ⟨e, he, hdirty⟩ := hlive txid hctx
  have hlevel := h.inv.1
  have hstep : flat.step .release =
      { maps := Function.update top txid (top txid).cleanup :: rest
        modifier := none } := by
    rw [FlatViews.step, hmaps, hmod]
  have hsame : CCoins.Same e.coins (top txid) := by
    have h := htop txid
    rwa [coinsAt_of_find he] at h
  rw [hstep, CCoinsViewCache.release, hctx]
  simp only [he]
  split
  · next hdrop =>
      rw [Bool.and_eq_true] at hdrop
      obtain ⟨hfresh, hpruned⟩ := hdrop
      have hfind : ∀ t (x : CCoinsCacheEntry),
          (c.cacheCoins.erase txid).find? t = some x →
          c.cacheCoins.find? t = some x := by
        intro t x hx
        rw [KeyedMap.find?_erase] at hx
        by_cases ht : t = txid
        · rw [if_pos ht] at hx
          cases hx
        · rwa [if_neg ht] at hx
      apply h.top hmaps rfl
      · exact ⟨fun t x hx => hlevel.fresh t x (hfind t x hx),
          fun t x hx => hlevel.clean t x (hfind t x hx),
          fun t x hx => hlevel.pulled t x (hfind t x hx)⟩
      · intro t
        by_cases ht : t = txid
        · rw [ht, coinsAt_of_miss (KeyedMap.find?_erase_self _ _),
            Function.update_self]
          apply CCoins.same_of_pruned
          · exact hlevel.fresh txid e he hfresh
          · rw [← hsame.cleanup.isPruned_eq]
            exact hpruned
        · rw [Function.update_of_ne ht]
          unfold coinsAt
          rw [KeyedMap.find?_erase_ne _ ht]
          exact htop t
      · exact ⟨rfl, fun t ht => by cases ht⟩
  · next hkeep =>
      apply h.top hmaps rfl
      · apply hlevel.insert rfl
        · exact hlevel.fresh txid e he
        · intro hclean
          rw [show ({ e with coins := e.coins.cleanup } :
            CCoinsCacheEntry).dirty = e.dirty from rfl, hdirty] at hclean
          cases hclean
        · exact hlevel.pulled txid e he
      · intro t
        rw [coinsAt_insert (c := c) rfl]
        by_cases ht : t = txid
        · rw [if_pos ht, ht, Function.update_self]
          exact hsame.cleanup
        · rw [if_neg ht, Function.update_of_ne ht]
          exact htop t
      · exact ⟨rfl, fun t ht => by cases ht⟩

/-! ## Flushing -/

/-- What `BatchWrite` makes of one entry of the parent: it cannot fail, the
entry it leaves is right about the view below, and it shows the child's
coins. -/
private theorem batchWriteSlot_spec {base : S} {c parent : CCoinsViewCache}
    {below : List CCoinsViewCache}
    (hchild : LevelInv view base c (parent :: below))
    (hparent : LevelInv view base parent below)
    {txid : Uint256} {it : CCoinsCacheEntry}
    (hit : c.cacheCoins.find? txid = some it) :
    ∃ o, batchWriteSlot (parent.cacheCoins.find? txid) it = some o ∧
      CCoins.Same (o.elim (coinsAt view base below txid)
        CCoinsCacheEntry.coins) it.coins ∧
      ∀ e, o = some e →
        (e.fresh = true → (coinsAt view base below txid).isPruned = true) ∧
        (e.dirty = false →
          CCoins.Same e.coins (coinsAt view base below txid)) ∧
        (e.fresh = false → HasEntry txid below) := by
  have hclean := hchild.clean txid it hit
  have hfresh := hchild.fresh txid it hit
  have hpulled := hchild.pulled txid it hit
  unfold batchWriteSlot
  cases hdirty : it.dirty with
  | false =>
      rw [if_neg Bool.false_ne_true]
      refine ⟨_, rfl, ?_, fun e he => ⟨hparent.fresh txid e he,
        hparent.clean txid e he, hparent.pulled txid e he⟩⟩
      have hsame := (hclean hdirty).symm
      cases hus : parent.cacheCoins.find? txid with
      | none => rwa [coinsAt_of_miss hus] at hsame
      | some us => rwa [coinsAt_of_find hus] at hsame
  | true =>
      rw [if_pos rfl]
      cases hus : parent.cacheCoins.find? txid with
      | none =>
          rw [coinsAt_of_miss hus] at hfresh
          -- the child would have pulled the parent's record in
          have hflag : it.fresh = true := by
            cases hflag : it.fresh with
            | true => rfl
            | false =>
                obtain ⟨us, hus'⟩ := hpulled hflag
                rw [hus] at hus'
                cases hus'
          cases hpruned : it.coins.isPruned with
          | true =>
              refine ⟨none, rfl, CCoins.same_of_pruned (hfresh hflag) hpruned,
                fun e he => by cases he⟩
          | false =>
              refine ⟨_, if_pos hflag, CCoins.Same.refl _, fun e he => ?_⟩
              obtain rfl := Option.some.inj he
              exact ⟨fun _ => hfresh hflag, (fun h => by cases h),
                (fun h => by cases h)⟩
      | some us =>
          by_cases hdrop : (us.fresh && it.coins.isPruned) = true
          · rw [Bool.and_eq_true] at hdrop
            refine ⟨none, by simp [hdrop], ?_, fun e he => by cases he⟩
            exact CCoins.same_of_pruned
              (hparent.fresh txid us hus hdrop.1) hdrop.2
          · refine ⟨_, if_neg hdrop, CCoins.Same.refl _, fun e he => ?_⟩
            obtain rfl := Option.some.inj he
            exact ⟨hparent.fresh txid us hus, (fun h => by cases h),
              hparent.pulled txid us hus⟩

/-- **`BatchWrite` into a cache.**  No assertion fails, the parent's flags
stay right, and it then holds the child's coins. -/
theorem batchWrite_spec {base : S} {c parent : CCoinsViewCache}
    {below : List CCoinsViewCache} (hash : Uint256)
    (hchild : LevelInv view base c (parent :: below))
    (hparent : LevelInv view base parent below)
    (hmod : parent.modifier = none) :
    ∃ parent', parent.batchWrite c.cacheCoins hash = some parent' ∧
      LevelInv view base parent' below ∧ parent'.modifier = none ∧
      ∀ txid, CCoins.Same (coinsAt view base (parent' :: below) txid)
        (coinsAt view base (c :: parent :: below) txid) := by
  obtain ⟨m', hm', hfind⟩ := KeyedMap.writeAll_spec batchWriteSlot
    c.cacheCoins parent.cacheCoins
    (fun txid => (c.cacheCoins.find? txid).elim
      (parent.cacheCoins.find? txid)
      (fun it => ((batchWriteSlot (parent.cacheCoins.find? txid) it).getD
        none)))
    (by
      intro txid it hit
      obtain ⟨o, ho, -⟩ := batchWriteSlot_spec hchild hparent hit
      rw [hit, Option.elim_some, ho]
      rfl)
    (by
      intro txid hnone
      rw [hnone]
      rfl)
  have hslot : ∀ txid, (c.cacheCoins.find? txid = none ∧
        m'.find? txid = parent.cacheCoins.find? txid) ∨
      ∃ it o, c.cacheCoins.find? txid = some it ∧
        batchWriteSlot (parent.cacheCoins.find? txid) it = some o ∧
        m'.find? txid = o := by
    intro txid
    have h := hfind txid
    cases hit : c.cacheCoins.find? txid with
    | none =>
        rw [hit] at h
        exact Or.inl ⟨rfl, h⟩
    | some it =>
        obtain ⟨o, ho, -⟩ := batchWriteSlot_spec hchild hparent hit
        rw [hit, Option.elim_some, ho, Option.getD_some] at h
        exact Or.inr ⟨it, o, rfl, ho, h⟩
  have hentry : ∀ txid (e : CCoinsCacheEntry), m'.find? txid = some e →
      (e.fresh = true → (coinsAt view base below txid).isPruned = true) ∧
      (e.dirty = false → CCoins.Same e.coins (coinsAt view base below txid)) ∧
      (e.fresh = false → HasEntry txid below) := by
    intro txid e he
    rcases hslot txid with ⟨-, hm⟩ | ⟨it, o, hit, ho, hm⟩
    · rw [hm] at he
      exact ⟨hparent.fresh txid e he, hparent.clean txid e he,
        hparent.pulled txid e he⟩
    · obtain ⟨o', ho', -, hflags⟩ := batchWriteSlot_spec hchild hparent hit
      rw [hm] at he
      rw [ho] at ho'
      exact hflags e ((Option.some.inj ho').symm.trans he)
  refine ⟨{ parent with cacheCoins := m', hashBlock := hash }, ?_, ?_, hmod, ?_⟩
  · rw [CCoinsViewCache.batchWrite, if_neg (by simp [hmod]), hm']
    rfl
  · exact ⟨fun txid e he => (hentry txid e he).1,
      fun txid e he => (hentry txid e he).2.1,
      fun txid e he => (hentry txid e he).2.2⟩
  · intro txid
    rcases hslot txid with ⟨hit, hm⟩ | ⟨it, o, hit, ho, hm⟩
    · rw [coinsAt_of_miss hit]
      unfold coinsAt
      rw [hm]
    · obtain ⟨o', ho', hsame, -⟩ := batchWriteSlot_spec hchild hparent hit
      rw [ho] at ho'
      obtain rfl := Option.some.inj ho'
      rw [coinsAt_of_find hit]
      unfold coinsAt
      rw [hm]
      cases o with
      | none => exact hsame
      | some e => exact hsame

private theorem levelInv_empty (base : S) (c : CCoinsViewCache)
    (below : List CCoinsViewCache) :
    LevelInv view base { c with cacheCoins := KeyedMap.empty } below where
  fresh := by
    intro txid e he
    rw [KeyedMap.find?_empty] at he
    cases he
  clean := by
    intro txid e he
    rw [KeyedMap.find?_empty] at he
    cases he
  pulled := by
    intro txid e he
    rw [KeyedMap.find?_empty] at he
    cases he

/-- **Flushing.**  It raises no assertion, the map below becomes the one of
the flushed cache, and the view below then holds its coins. -/
theorem flush_spec (hview : view.Lawful) {vs : Views S} {flat : FlatViews}
    (h : Refines view vs flat) (hallowed : flat.Allowed .flush) :
    ∃ vs', vs.flush view = some vs' ∧
      Refines view vs' (flat.step .flush) ∧
      ∀ txid, CCoins.Same (coinsAt view vs'.base vs'.stack.tail txid)
        (coinsAt view vs.base vs.stack txid) := by
  obtain ⟨stack, base⟩ := vs
  obtain ⟨hinv, hagree, hlive⟩ := h
  simp only at hinv hagree hlive
  obtain ⟨htwo, hmod⟩ := hallowed
  match stack with
  | [] =>
      obtain ⟨top, hmaps, -⟩ := hagree
      rw [hmaps] at htwo
      simp at htwo
  | [c] =>
      obtain ⟨top, rest, hmaps, htop, bottom, rfl, hbottom⟩ := hagree
      obtain ⟨hlevel, -, -⟩ := hinv
      obtain ⟨hc, -⟩ := hlive
      have hbase : ∀ txid, CCoins.Same
          (view.coinsOf (view.batchWrite base c.cacheCoins c.hashBlock) txid)
          (coinsAt view base [c] txid) := by
        intro txid
        cases hit : c.cacheCoins.find? txid with
        | none =>
            rw [coinsAt_of_miss hit]
            apply hview.batchWrite_other
            intro e he
            rw [hit] at he
            cases he
        | some it =>
            rw [coinsAt_of_find hit]
            cases hdirty : it.dirty with
            | true => exact hview.batchWrite_dirty _ _ _ _ it hit hdirty
            | false =>
                have hsame := hlevel.clean txid it hit hdirty
                apply (hview.batchWrite_other _ _ _ _ ?_).trans hsame.symm
                intro e he
                rw [hit] at he
                obtain rfl := Option.some.inj he
                exact ⟨hdirty, hsame⟩
      have hstep : flat.step .flush = { flat with maps := [top, top] } := by
        rw [FlatViews.step, hmaps]
      refine ⟨_, rfl, ?_, hbase⟩
      rw [hstep]
      refine ⟨⟨levelInv_empty _ c [], (fun p hp => by cases hp), trivial⟩,
        ⟨top, [top], rfl, ?_, top, rfl, ?_⟩, ?_⟩
      · intro txid
        rw [coinsAt_of_miss (KeyedMap.find?_empty txid)]
        exact (hbase txid).trans (htop txid)
      · exact fun txid => (hbase txid).trans (htop txid)
      · refine ⟨hc, fun txid htxid => ?_⟩
        rw [show ({ c with cacheCoins := KeyedMap.empty } :
          CCoinsViewCache).modifier = c.modifier from rfl, hc, hmod] at htxid
        cases htxid
  | c :: parent :: below =>
      obtain ⟨top, rest, hmaps, htop, next, rest', rfl, hnext, hrest⟩ := hagree
      obtain ⟨hlevel, hnone, hlevel', hnone', hbelow⟩ := hinv
      obtain ⟨hc, -⟩ := hlive
      obtain ⟨parent', hwrite, hparent', hmod', hsame⟩ :=
        batchWrite_spec c.hashBlock hlevel hlevel'
          (hnone parent List.mem_cons_self)
      have hstep : flat.step .flush =
          { flat with maps := top :: top :: rest' } := by
        rw [FlatViews.step, hmaps]
      have hflush : Views.flush view ⟨c :: parent :: below, base⟩ = some
          ⟨{ c with cacheCoins := KeyedMap.empty } :: parent' :: below,
            base⟩ := by
        show (parent.batchWrite c.cacheCoins c.hashBlock).map _ = _
        rw [hwrite]
        rfl
      refine ⟨_, hflush, ?_, hsame⟩
      rw [hstep]
      refine ⟨⟨levelInv_empty _ c _, ?_, hparent', hnone', hbelow⟩,
        ⟨top, top :: rest', rfl, ?_, top, rest', rfl, ?_, hrest⟩, ?_⟩
      · intro p hp
        rcases List.mem_cons.mp hp with rfl | hp
        · exact hmod'
        · exact hnone' p hp
      · intro txid
        rw [coinsAt_of_miss (KeyedMap.find?_empty txid)]
        exact (hsame txid).trans (htop txid)
      · exact fun txid => (hsame txid).trans (htop txid)
      · refine ⟨hc, fun txid htxid => ?_⟩
        rw [show ({ c with cacheCoins := KeyedMap.empty } :
          CCoinsViewCache).modifier = c.modifier from rfl, hc, hmod] at htxid
        cases htxid

/-! ## Runs -/

private theorem Agree.length {base : S} {stack : List CCoinsViewCache} :
    ∀ {maps : List (Uint256 → CCoins)}, Agree view base stack maps →
      maps.length = stack.length + 1 := by
  induction stack with
  | nil =>
      rintro maps ⟨flat, rfl, -⟩
      rfl
  | cons c below ih =>
      rintro maps ⟨flat, rest, rfl, -, hrest⟩
      rw [List.length_cons, ih hrest]
      rfl

theorem exists_top {base : S} {stack : List CCoinsViewCache}
    {maps : List (Uint256 → CCoins)} (hagree : Agree view base stack maps)
    (htwo : 2 ≤ maps.length) : ∃ c below, stack = c :: below := by
  match stack with
  | [] =>
      rw [hagree.length] at htwo
      simp at htwo
  | c :: below => exact ⟨c, below, rfl⟩

private theorem exists_top_of_live {stack : List CCoinsViewCache}
    {modifier : Option Uint256} (hlive : Live stack modifier)
    (hmod : modifier ≠ none) : ∃ c below, stack = c :: below := by
  match stack with
  | [] => exact absurd hlive hmod
  | c :: below => exact ⟨c, below, rfl⟩

private theorem refines_push {vs : Views S} {flat : FlatViews}
    (h : Refines view vs flat) (hmod : flat.modifier = none) :
    Refines view { vs with stack := {} :: vs.stack } (flat.step .push) := by
  obtain ⟨hinv, hagree, hlive⟩ := h
  have hnone : ∀ p ∈ vs.stack, p.modifier = none := by
    intro p hp
    match hstack : vs.stack with
    | [] =>
        rw [hstack] at hp
        cases hp
    | c :: below =>
        rw [hstack] at hp hlive hinv
        rcases List.mem_cons.mp hp with rfl | hp
        · rw [hlive.1, hmod]
        · exact hinv.2.1 p hp
  obtain ⟨top, rest, hmaps, htop⟩ : ∃ top rest, flat.maps = top :: rest ∧
      ∀ txid, CCoins.Same (coinsAt view vs.base vs.stack txid) (top txid) := by
    match hstack : vs.stack with
    | [] =>
        rw [hstack] at hagree
        obtain ⟨top, hmaps, htop⟩ := hagree
        exact ⟨top, [], hmaps, htop⟩
    | c :: below =>
        rw [hstack] at hagree
        obtain ⟨top, rest, hmaps, htop, -⟩ := hagree
        exact ⟨top, rest, hmaps, htop⟩
  have hstep : flat.step .push = { flat with maps := top :: top :: rest } := by
    rw [FlatViews.step, hmaps]
  rw [hstep]
  refine ⟨⟨levelInv_empty _ {} _, hnone, hinv⟩, ⟨top, top :: rest, rfl, ?_, ?_⟩,
    hmod.symm, fun txid htxid => by cases htxid⟩
  · intro txid
    rw [coinsAt_of_miss (KeyedMap.find?_empty txid)]
    exact htop txid
  · rw [← hmaps]
    exact hagree

private theorem refines_pop {base : S} {c : CCoinsViewCache}
    {below : List CCoinsViewCache} {flat : FlatViews}
    (h : Refines view ⟨c :: below, base⟩ flat) (hmod : flat.modifier = none) :
    Refines view ⟨below, base⟩ (flat.step .pop) := by
  obtain ⟨⟨-, hnone, hbelow⟩, ⟨top, rest, hmaps, -, hrest⟩, -⟩ := h
  have hstep : flat.step .pop = { flat with maps := rest } := by
    rw [FlatViews.step, hmaps]
    rfl
  rw [hstep]
  refine ⟨hbelow, hrest, ?_⟩
  match below with
  | [] => exact hmod
  | p :: below =>
      have hp := hnone p List.mem_cons_self
      refine ⟨hp.trans hmod.symm, fun txid htxid => ?_⟩
      rw [hp] at htxid
      cases htxid

/-- **Every operation keeps the stack in step** with the flat maps, and no
assertion fails. -/
theorem refines_step (hview : view.Lawful) {vs : Views S} {flat : FlatViews}
    (h : Refines view vs flat) {op : ViewOp} (hallowed : flat.Allowed op) :
    ∃ vs', vs.step view op = some vs' ∧ Refines view vs' (flat.step op) := by
  cases op with
  | fetch txid =>
      exact ⟨_, rfl, h.filled (getCoins_spec vs.base txid vs.stack h.inv).2.2⟩
  | getBestBlock =>
      exact ⟨_, rfl, h.filled (getBestBlock_filled vs.base vs.stack h.inv)⟩
  | setBestBlock hashBlock =>
      obtain ⟨stack, base⟩ := vs
      obtain ⟨c, below, rfl⟩ := exists_top h.agree hallowed
      obtain ⟨top, rest, hmaps, htop, -⟩ := h.agree
      have hlevel := h.inv.1
      refine ⟨_, rfl, h.top hmaps hmaps ?_ ?_ h.live⟩
      · exact ⟨hlevel.fresh, hlevel.clean, hlevel.pulled⟩
      · exact htop
  | modify txid =>
      obtain ⟨stack, base⟩ := vs
      obtain ⟨htwo, hmod⟩ := hallowed
      obtain ⟨c, below, rfl⟩ := exists_top h.agree htwo
      obtain ⟨stack', hmodify, href, -⟩ :=
        modifyCoins_spec txid h (h.live.1.trans hmod)
      refine ⟨⟨stack', base⟩, ?_, href⟩
      show (modifyCoins view base txid (c :: below)).map _ = _
      rw [hmodify]
      rfl
  | write coins =>
      obtain ⟨stack, base⟩ := vs
      obtain ⟨c, below, rfl⟩ := exists_top_of_live h.live hallowed
      obtain ⟨txid, hmod⟩ := Option.ne_none_iff_exists'.mp hallowed
      exact ⟨_, rfl, write_spec h hmod coins⟩
  | release =>
      obtain ⟨stack, base⟩ := vs
      obtain ⟨c, below, rfl⟩ := exists_top_of_live h.live hallowed
      obtain ⟨txid, hmod⟩ := Option.ne_none_iff_exists'.mp hallowed
      exact ⟨_, rfl, release_spec h hmod⟩
  | push => exact ⟨_, rfl, refines_push h hallowed⟩
  | flush =>
      obtain ⟨vs', hflush, href, -⟩ := flush_spec hview h hallowed
      exact ⟨vs', hflush, href⟩
  | pop =>
      obtain ⟨stack, base⟩ := vs
      obtain ⟨htwo, hmod⟩ := hallowed
      obtain ⟨c, below, rfl⟩ := exists_top h.agree htwo
      have hfree : ¬ c.modifier.isSome = true := by
        rw [h.live.1, hmod]
        exact Bool.false_ne_true
      exact ⟨⟨below, base⟩, if_neg hfree, refines_pop h hmod⟩

variable (view) in
/-- The states of a run from a base view, with the flat maps beside them. -/
inductive Reachable (base : S) : Views S → FlatViews → Prop
  | init : Reachable base ⟨[], base⟩ ⟨[view.coinsOf base], none⟩
  | step {vs vs' : Views S} {flat : FlatViews} (op : ViewOp) :
      Reachable base vs flat → flat.Allowed op →
      vs.step view op = some vs' → Reachable base vs' (flat.step op)

/-- A run keeps the stack in step. -/
theorem Reachable.refines (hview : view.Lawful) {base : S} {vs : Views S}
    {flat : FlatViews} (h : Reachable view base vs flat) :
    Refines view vs flat := by
  induction h with
  | init =>
      exact ⟨trivial, ⟨_, rfl, fun _ => CCoins.Same.refl _⟩, rfl⟩
  | step op _ hallowed hstep ih =>
      obtain ⟨vs', hstep', href⟩ := refines_step hview ih hallowed
      rw [hstep] at hstep'
      obtain rfl := Option.some.inj hstep'
      exact href

variable (view) in
/-- The record a read returns; nothing counts as an empty one. -/
def readCoins (base : S) (stack : List CCoinsViewCache) (txid : Uint256) :
    CCoins :=
  ((getCoins view base txid stack).1).getD CCoins.empty

theorem readCoins_eq {base : S} {stack : List CCoinsViewCache}
    (hinv : StackInv view base stack) (txid : Uint256) :
    readCoins view base stack txid = coinsAt view base stack txid :=
  (getCoins_spec base txid stack hinv).1

private theorem StackInv.suffix {base : S} {c : CCoinsViewCache}
    {below : List CCoinsViewCache} (above : List CCoinsViewCache) :
    StackInv view base (above ++ c :: below) →
      StackInv view base (c :: below) := by
  induction above with
  | nil => exact fun h => h
  | cons a above ih => exact fun h => ih h.2.2

/-- A read that finds no outputs means that the coins are spent. -/
theorem haveCoins_of_not_pruned {base : S} {stack : List CCoinsViewCache}
    {txid : Uint256}
    (h : (readCoins view base stack txid).isPruned = false) :
    haveCoins view base txid stack = true := by
  unfold readCoins at h
  unfold haveCoins
  cases hread : (getCoins view base txid stack).1 with
  | none =>
      rw [hread] at h
      cases h
  | some coins =>
      rw [hread, Option.getD_some] at h
      cases hvout : coins.vout with
      | nil =>
          rw [CCoins.isPruned, hvout] at h
          cases h
      | cons out vout => simp [hvout]

variable (view) in
/-- What holds of a stack of caches at any time. -/
structure Sound (vs : Views S) (flat : FlatViews) : Prop where
  /-- No assertion fails, the one on fresh entries in `BatchWrite` among
  them. -/
  no_assert : ∀ op, flat.Allowed op → ∃ vs', vs.step view op = some vs'
  /-- Reads return the coins of the flat map. -/
  reads : ∀ top, flat.maps.head? = some top → ∀ txid,
    CCoins.Same (readCoins view vs.base vs.stack txid) (top txid)
  haves : ∀ top, flat.maps.head? = some top → ∀ txid,
    (top txid).isPruned = false → haveCoins view vs.base txid vs.stack = true
  /-- At every level, fresh entries are absent or pruned in its base. -/
  fresh : ∀ above c below, vs.stack = above ++ c :: below →
    ∀ txid (e : CCoinsCacheEntry), c.cacheCoins.find? txid = some e →
      e.fresh = true → (readCoins view vs.base below txid).isPruned = true
  /-- After a flush the base returns what the cache returned. -/
  flush : flat.Allowed .flush → ∀ vs', vs.step view .flush = some vs' →
    ∀ txid, CCoins.Same (readCoins view vs'.base vs'.stack.tail txid)
      (readCoins view vs.base vs.stack txid)

/-- **The cache refines a flat map.**  Over every base view that keeps what
is written to it, in every state of every run with at most one live
modifier. -/
theorem viewCache_refines (hview : view.Lawful) {base : S} {vs : Views S}
    {flat : FlatViews} (h : Reachable view base vs flat) :
    Sound view vs flat := by
  have href := h.refines hview
  have hreads : ∀ top, flat.maps.head? = some top → ∀ txid,
      CCoins.Same (readCoins view vs.base vs.stack txid) (top txid) := by
    intro top hhead txid
    rw [readCoins_eq href.inv]
    have hagree := href.agree
    match hstack : vs.stack with
    | [] =>
        rw [hstack] at hagree
        obtain ⟨flat₀, hmaps, htop⟩ := hagree
        rw [hmaps] at hhead
        obtain rfl := Option.some.inj hhead
        exact htop txid
    | c :: below =>
        rw [hstack] at hagree
        obtain ⟨flat₀, rest, hmaps, htop, -⟩ := hagree
        rw [hmaps] at hhead
        obtain rfl := Option.some.inj hhead
        exact htop txid
  constructor
  · intro op hallowed
    obtain ⟨vs', hstep, -⟩ := refines_step hview href hallowed
    exact ⟨vs', hstep⟩
  · exact hreads
  · intro top hhead txid hpruned
    apply haveCoins_of_not_pruned
    rw [(hreads top hhead txid).isPruned_eq]
    exact hpruned
  · intro above c below hstack txid e he hfresh
    have hinv := href.inv
    rw [hstack] at hinv
    obtain ⟨hlevel, -, hbelow⟩ := hinv.suffix above
    rw [readCoins_eq hbelow]
    exact hlevel.fresh txid e he hfresh
  · intro hallowed vs' hstep txid
    obtain ⟨vs'', hflush, href', hsame⟩ := flush_spec hview href hallowed
    obtain rfl := Option.some.inj (hstep.symm.trans hflush)
    have htail : StackInv view vs'.base vs'.stack.tail := by
      have hinv := href'.inv
      match hstack : vs'.stack with
      | [] => exact trivial
      | c :: below =>
          rw [hstack] at hinv
          exact hinv.2.2
    rw [readCoins_eq htail, readCoins_eq href.inv]
    exact hsame txid

/-- One transaction written through two caches over an empty database. -/
theorem viewCache_refines_two_caches :
    ∃ vs flat, Reachable CCoinsViewDB ⟨KeyedMap.empty, none⟩ vs flat ∧
      vs.stack.length = 2 ∧ Sound CCoinsViewDB vs flat := by
  have h0 : Reachable CCoinsViewDB ⟨KeyedMap.empty, none⟩ _ _ :=
    Reachable.init
  have h1 := h0.step .push rfl rfl
  have h2 := h1.step .push rfl rfl
  have h3 := h2.step (.modify 7) ⟨by decide, rfl⟩ rfl
  have h4 := h3.step
    (.write { vout := [{ nValue := 5, scriptPubKey := [] }] })
    (by simp [FlatViews.Allowed, FlatViews.step]) rfl
  have h5 := h4.step .release
    (by simp [FlatViews.Allowed, FlatViews.step]) rfl
  have h6 := h5.step .flush ⟨by decide, rfl⟩ rfl
  exact ⟨_, _, h6, rfl, viewCache_refines CCoinsViewDB_lawful h6⟩

end Agrarian.Coins
