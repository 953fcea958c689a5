import TrumpCoin.Chainstate.CacheLayers
import Mathlib.Data.Set.Function

/-!
# The coins caches are plain maps

Each cache of the stack is a sound layer over what is below it (`LayerSees`): a clean entry says what is below anyway,
and below a fresh one there is no unspent coin. Every call keeps this (`StackSees.step`), so that a run of calls gives
the answers of the plain views.

The exception is `GetCoin`: for a spent coin it returns true with an empty coin where a cache on the way to the database
has an entry for the outpoint, and false where none has. `CacheLayer.spentEntry` says when the former happens.

Roots identify trees: the trees that are pushed are taken from a set on which the root is injective and not null.
-/

namespace TrumpCoin

open Lib WriteBack

/-- A set of trees that are known by their roots. -/
structure TreeSpace (root : SaplingMerkleTree → uint256) (trees : Set SaplingMerkleTree) : Prop where
  injOn : Set.InjOn root trees
  root_ne_zero : ∀ tree ∈ trees, root tree ≠ 0
  nil_mem : [] ∈ trees

/-! ## Plain views -/

namespace PlainView

variable (root : SaplingMerkleTree → uint256) (trees : Set SaplingMerkleTree)

structure Wf (view : PlainView) : Prop where
  unspent : ∀ o coin, view.coins o = some coin → coin.isSpent = false
  mem_trees : ∀ tree ∈ view.anchors, tree ∈ trees
  nodup : (view.anchors.map root).Nodup
  nil_notMem : root [] ∉ view.anchors.map root

variable {root trees} {view : PlainView}

variable {tree : SaplingMerkleTree}

/-- The tree that is found under a root has that root. -/
theorem Wf.of_anchorAt (h : view.Wf root trees) (T : TreeSpace root trees) {rt : uint256}
    (hat : view.anchorAt root rt = some tree) : tree ∈ trees ∧ root tree = rt := by
  unfold anchorAt at hat
  split_ifs at hat with hrt
  · cases hat
    exact ⟨T.nil_mem, hrt.symm⟩
  · exact ⟨h.mem_trees tree (List.mem_of_find?_eq_some hat), by simpa using List.find?_some hat⟩

/-- A pushed tree is found under its root, and the others as before. -/
theorem anchorAt_push (hne : root tree ≠ root []) :
    ({ view with anchors := tree :: view.anchors } : PlainView).anchorAt root =
      Function.update (view.anchorAt root) (root tree) (some tree) := by
  funext rt
  by_cases hrt : rt = root tree
  · subst hrt
    simp [anchorAt, hne]
  · rw [Function.update_of_ne hrt]
    simp [anchorAt, Ne.symm hrt]

/-- The last tree is no longer found once it is popped; no other tree has its root. -/
theorem Wf.anchorAt_tail (h : view.Wf root trees) {rest : List SaplingMerkleTree}
    (hanchors : view.anchors = tree :: rest) : ({ view with anchors := rest } : PlainView).anchorAt root =
      Function.update (view.anchorAt root) (root tree) none := by
  have hnodup := h.nodup
  have hnil := h.nil_notMem
  rw [hanchors, List.map_cons] at hnodup hnil
  rw [List.nodup_cons] at hnodup
  funext rt
  by_cases hrt : rt = root tree
  · subst hrt
    rw [Function.update_self, anchorAt, if_neg fun heq => hnil (by rw [← heq]; exact List.mem_cons_self)]
    refine List.find?_eq_none.mpr fun t ht heq => hnodup.1 ?_
    rw [← of_decide_eq_true heq]
    exact List.mem_map_of_mem ht
  · rw [Function.update_of_ne hrt]
    simp [anchorAt, hanchors, Ne.symm hrt]

theorem Wf.bestAnchor_ne_zero (h : view.Wf root trees) (T : TreeSpace root trees) : view.bestAnchor root ≠ 0 := by
  unfold bestAnchor
  cases hanchors : view.anchors with
  | nil => exact T.root_ne_zero [] T.nil_mem
  | cons tree rest =>
    exact T.root_ne_zero tree (h.mem_trees tree (by rw [hanchors]; exact List.mem_cons_self))

end PlainView

/-! ## Layers -/

section Sees

variable (root : SaplingMerkleTree → uint256) (trees : Set SaplingMerkleTree)

def CCoinsCacheEntry.EmptyIfSpent (_ : COutPoint) (entry : CCoinsCacheEntry) : Prop :=
  entry.coin.isSpent = true → entry.coin = coinEmpty

/-- The entry has the tree of its root, also after the tree was removed. -/
def CAnchorsSaplingCacheEntry.HasTree (rt : uint256) (entry : CAnchorsSaplingCacheEntry) : Prop :=
  entry.tree ∈ trees ∧ root entry.tree = rt

/-- With `below` under it, what is seen through the cache is `view`. -/
structure LayerSees (layer : CacheLayer) (below view : PlainView) : Prop where
  coins : coinReading.Through layer.cacheCoins below.coins view.coins
  spent_empty : ∀ (o : COutPoint) entry, layer.cacheCoins[o]? = some entry → entry.EmptyIfSpent o
  anchors : anchorReading.Through layer.cacheSaplingAnchors (below.anchorAt root) (view.anchorAt root)
  entry_tree : ∀ (rt : uint256) entry, layer.cacheSaplingAnchors[rt]? = some entry → entry.HasTree root trees rt
  nullifiers : nullifierReading.Through layer.cacheSaplingNullifiers below.nullifiers view.nullifiers
  bestBlock : view.bestBlock = if layer.hashBlock = 0 then below.bestBlock else layer.hashBlock
  bestAnchor : view.bestAnchor root =
    if layer.hashSaplingAnchor = 0 then below.bestAnchor root else layer.hashSaplingAnchor

/-- The database has the contents of the view, and no flush is under way. -/
structure DbSees (db : CCoinsViewDB) (view : PlainView) : Prop where
  coins : db.getCoin = view.coins
  anchors : db.getSaplingAnchorAt root = view.anchorAt root
  nullifiers : db.getNullifier = view.nullifiers
  bestBlock : db.getBestBlock = view.bestBlock
  bestAnchor : db.getBestAnchor root = view.bestAnchor root
  headBlocks : db.headBlocks = none

/-- The views at each level of the stack, the last one being that of the database. -/
inductive StackSees (db : CCoinsViewDB) : List CacheLayer → List PlainView → Prop
  | base {view : PlainView} (db_sees : DbSees root db view) (wf : view.Wf root trees) : StackSees db [] [view]
  | layer {layer : CacheLayer} {base : List CacheLayer} {below view : PlainView} {views : List PlainView}
      (rest : StackSees db base (below :: views)) (sees : LayerSees root trees layer below view)
      (wf : view.Wf root trees) : StackSees db (layer :: base) (view :: below :: views)

variable {root trees} {layers : List CacheLayer} {db : CCoinsViewDB} {views : List PlainView}

theorem StackSees.wf {view : PlainView}
    (h : StackSees root trees db layers (view :: views)) : view.Wf root trees := by
  cases h <;> assumption

/-- A new cache shows what is below it. -/
theorem LayerSees.new (view : PlainView) : LayerSees root trees {} view view where
  coins := .empty _
  spent_empty := FinMap.forall_empty
  anchors := .empty _
  entry_tree := FinMap.forall_empty
  nullifiers := .empty _
  bestBlock := (if_pos rfl).symm
  bestAnchor := (if_pos rfl).symm

/-- The caches below some level can be exchanged for others that see the same. -/
theorem StackSees.at_level {level : Nat}
    (h : StackSees root trees db layers views) (hle : level ≤ layers.length) :
    ∃ view rest, views.drop level = view :: rest ∧ StackSees root trees db (layers.drop level) (view :: rest) ∧
      ∀ base, StackSees root trees db base (view :: rest) →
        StackSees root trees db (layers.take level ++ base) views := by
  induction level generalizing layers views with
  | zero => cases h <;> exact ⟨_, _, rfl, by constructor <;> assumption, fun _ hbase => hbase⟩
  | succ level ih =>
    cases h with
    | base => cases hle
    | layer hrest sees wf =>
      obtain ⟨view, rest, hdrop, hsees, hback⟩ := ih hrest (Nat.le_of_succ_le_succ hle)
      exact ⟨view, rest, hdrop, hsees, fun base hbase => .layer (hback base hbase) sees wf⟩

/-! ## One part of a layer -/

namespace LayerSees

variable {layer : CacheLayer} {below view : PlainView}

def SpentEmpty (cache : FinMap COutPoint CCoinsCacheEntry) : Prop :=
  ∀ (o : COutPoint) entry, cache[o]? = some entry → entry.EmptyIfSpent o

variable {cache : FinMap COutPoint CCoinsCacheEntry}

theorem SpentEmpty.insert (h : SpentEmpty cache) {o : COutPoint} {entry : CCoinsCacheEntry}
    (hentry : entry.EmptyIfSpent o) :
    SpentEmpty (cache.insert o entry) :=
  FinMap.forall_insert h hentry

theorem SpentEmpty.erase (h : SpentEmpty cache) (o : COutPoint) : SpentEmpty (cache.erase o) :=
  FinMap.forall_erase h

variable (h : LayerSees root trees layer below view)
include h

theorem with_coins {coins : COutPoint → Option Coin}
    (hcoins : coinReading.Through cache below.coins coins) (hspent : SpentEmpty cache) :
    LayerSees root trees { layer with cacheCoins := cache } below { view with coins := coins } :=
  { h with coins := hcoins, spent_empty := hspent }

theorem with_nullifiers {cache : FinMap uint256 CNullifiersCacheEntry}
    {nullifiers : uint256 → Bool} (hnullifiers : nullifierReading.Through cache below.nullifiers nullifiers) :
    LayerSees root trees { layer with cacheSaplingNullifiers := cache } below { view with nullifiers := nullifiers } :=
  { h with nullifiers := hnullifiers }

theorem with_anchor {rt hash : uint256}
    {entry : CAnchorsSaplingCacheEntry} {anchors : List SaplingMerkleTree}
    (hanchors : anchorReading.Through (layer.cacheSaplingAnchors.insert rt entry) (below.anchorAt root)
      (({ view with anchors := anchors } : PlainView).anchorAt root))
    (hentry : entry.HasTree root trees rt)
    (hbest : ({ view with anchors := anchors } : PlainView).bestAnchor root =
      if hash = 0 then below.bestAnchor root else hash) :
    LayerSees root trees { layer with
      cacheSaplingAnchors := layer.cacheSaplingAnchors.insert rt entry
      hashSaplingAnchor := hash } below { view with anchors := anchors } :=
  { h with anchors := hanchors, entry_tree := FinMap.forall_insert h.entry_tree hentry, bestAnchor := hbest }

end LayerSees

/-! ## Reads -/

/-- An entry that was fetched from below is clean, and fresh where the coin is spent. -/
theorem fetched_holds {tmp : Coin} {below : Option Coin}
    (h : tmp.isSpent = true ∧ tmp = coinEmpty ∧ below = none ∨ tmp.isSpent = false ∧ below = some tmp) :
    coinReading.Holds (some { coin := tmp, fresh := tmp.isSpent }) below below := by
  have hseen : tmp.unspent = below := by
    unfold Coin.unspent
    rcases h with ⟨hspent, -, rfl⟩ | ⟨hspent, rfl⟩ <;> simp [hspent]
  have hentry : coinReading.Holds (some { coin := tmp, fresh := tmp.isSpent }) below tmp.unspent :=
    .hit (fun _ => hseen) fun hfresh => by
      rcases h with ⟨-, -, rfl⟩ | ⟨hspent, -⟩
      · rfl
      · exact absurd (hspent.symm.trans hfresh) (by decide)
  rwa [hseen] at hentry

namespace StackSees

variable {db : CCoinsViewDB} {layers : List CacheLayer} {view : PlainView} {views : List PlainView}

variable (h : StackSees root trees db layers (view :: views))
include h

/-- `GetCoin` leaves all views as they are. Its answer is that of the view, or an empty coin where an entry of a spent
coin is met. -/
theorem getCoin (o : COutPoint) :
    StackSees root trees db (CacheLayer.getCoin db o layers).2 (view :: views) ∧
      (CacheLayer.getCoin db o layers).1 =
        (if CacheLayer.spentEntry o layers then some coinEmpty else view.coins o) ∧
      (CacheLayer.spentEntry o layers = true → view.coins o = none) := by
  induction layers generalizing view views with
  | nil =>
    cases h with
    | base hdb wf =>
      exact ⟨.base hdb wf, congrFun hdb.coins o, fun hfalse => (by cases hfalse)⟩
  | cons layer base ih =>
    cases h with
    | layer hrest sees wf =>
      rename_i below views
      unfold CacheLayer.getCoin CacheLayer.spentEntry
      cases hentry : layer.cacheCoins[o]? with
      | some entry =>
        have hseen : view.coins o = entry.coin.unspent := sees.coins.seen_eq hentry
        refine ⟨.layer hrest sees wf, ?_, fun hspent => ?_⟩
        · dsimp only
          rw [hseen, Coin.unspent]
          split_ifs with hspent
          · rw [sees.spent_empty o entry hentry hspent]
          · rfl
        · exact hseen.trans (if_pos hspent)
      | none =>
        have hseen : view.coins o = below.coins o := sees.coins.miss_eq hentry
        obtain ⟨hbase, hcoin, hnone⟩ := ih hrest
        cases hget : CacheLayer.getCoin db o base with
        | mk coin base' =>
        rw [hget] at hbase hcoin
        rw [hseen]
        cases coin with
        | none => exact ⟨.layer hbase sees wf, hcoin, hnone⟩
        | some tmp =>
          have hfetched : tmp.isSpent = true ∧ tmp = coinEmpty ∧ below.coins o = none ∨
              tmp.isSpent = false ∧ below.coins o = some tmp := by
            split_ifs at hcoin with hspent
            · cases hcoin
              exact .inl ⟨rfl, rfl, hnone hspent⟩
            · exact .inr ⟨hrest.wf.unspent o tmp hcoin.symm, hcoin.symm⟩
          refine ⟨.layer hbase (sees.with_coins (sees.coins.fetch ?_) (.insert sees.spent_empty ?_)) wf, hcoin, hnone⟩
          · rw [hseen]
            exact fetched_holds hfetched
          · exact fun hspent => hfetched.elim (fun h => h.2.1) fun h => by rw [h.1] at hspent; cases hspent

/-- `HaveCoin` does not tell a spent coin from a missing one. -/
theorem haveCoin (o : COutPoint) :
    StackSees root trees db (CacheLayer.haveCoin db o layers).2 (view :: views) ∧
      (CacheLayer.haveCoin db o layers).1 = (view.coins o).isSome := by
  obtain ⟨hsees, hcoin, hnone⟩ := h.getCoin o
  refine ⟨hsees, ?_⟩
  unfold CacheLayer.haveCoin
  dsimp only
  rw [hcoin]
  split_ifs with hspent
  · rw [hnone hspent]
    rfl
  · cases hview : view.coins o with
    | none => rfl
    | some coin => simp [h.wf.unspent o coin hview]

/-- A tree that is found below is entered on the way up, which changes no view. -/
theorem getSaplingAnchorAt (T : TreeSpace root trees)
    (rt : uint256) : StackSees root trees db (CacheLayer.getSaplingAnchorAt root db rt layers).2 (view :: views) ∧
      (CacheLayer.getSaplingAnchorAt root db rt layers).1 = view.anchorAt root rt := by
  induction layers generalizing view views with
  | nil =>
    cases h with
    | base hdb wf => exact ⟨.base hdb wf, congrFun hdb.anchors rt⟩
  | cons layer base ih =>
    cases h with
    | layer hrest sees wf =>
      rename_i below views
      unfold CacheLayer.getSaplingAnchorAt
      cases hentry : layer.cacheSaplingAnchors[rt]? with
      | some entry => exact ⟨.layer hrest sees wf, (sees.anchors.seen_eq hentry).symm⟩
      | none =>
        have hseen : view.anchorAt root rt = below.anchorAt root rt := sees.anchors.miss_eq hentry
        obtain ⟨hbase, htree⟩ := ih hrest
        cases hget : CacheLayer.getSaplingAnchorAt root db rt base with
        | mk tree base' =>
        rw [hget] at hbase htree
        rw [hseen]
        cases tree with
        | none => exact ⟨.layer hbase sees wf, htree⟩
        | some tree =>
          refine ⟨.layer hbase (sees.with_anchor (sees.anchors.fetch ?_) ?_ sees.bestAnchor) wf, htree⟩
          · rw [hseen, ← htree]
            exact .hit (fun _ => rfl) fun hfresh => (by cases hfresh)
          · exact hrest.wf.of_anchorAt T htree.symm

theorem getNullifier (nf : uint256) :
    StackSees root trees db (CacheLayer.getNullifier db nf layers).2 (view :: views) ∧
      (CacheLayer.getNullifier db nf layers).1 = view.nullifiers nf := by
  induction layers generalizing view views with
  | nil =>
    cases h with
    | base hdb wf => exact ⟨.base hdb wf, congrFun hdb.nullifiers nf⟩
  | cons layer base ih =>
    cases h with
    | layer hrest sees wf =>
      rename_i below views
      unfold CacheLayer.getNullifier
      cases hentry : layer.cacheSaplingNullifiers[nf]? with
      | some entry => exact ⟨.layer hrest sees wf, (sees.nullifiers.seen_eq hentry).symm⟩
      | none =>
        have hseen : view.nullifiers nf = below.nullifiers nf := sees.nullifiers.miss_eq hentry
        obtain ⟨hbase, hfound⟩ := ih hrest
        dsimp only
        rw [hfound]
        refine ⟨.layer hbase (sees.with_nullifiers (sees.nullifiers.fetch ?_)) wf, hseen.symm⟩
        rw [hseen]
        exact .hit (fun _ => rfl) fun hfresh => (by cases hfresh)

theorem getBestBlock :
    StackSees root trees db (CacheLayer.getBestBlock db layers).2 (view :: views) ∧
      (CacheLayer.getBestBlock db layers).1 = view.bestBlock := by
  induction layers generalizing view views with
  | nil =>
    cases h with
    | base hdb wf => exact ⟨.base hdb wf, hdb.bestBlock⟩
  | cons layer base ih =>
    cases h with
    | layer hrest sees wf =>
      obtain ⟨hbase, hhash⟩ := ih hrest
      have hbest := sees.bestBlock
      unfold CacheLayer.getBestBlock
      split_ifs with hnull
      · rw [if_pos hnull] at hbest
        dsimp only
        rw [hhash]
        refine ⟨.layer hbase { sees with bestBlock := ?_ } wf, hbest.symm⟩
        rw [hbest]
        split <;> rfl
      · rw [if_neg hnull] at hbest
        exact ⟨.layer hrest sees wf, hbest.symm⟩

theorem getBestAnchor :
    StackSees root trees db (CacheLayer.getBestAnchor root db layers).2 (view :: views) ∧
      (CacheLayer.getBestAnchor root db layers).1 = view.bestAnchor root := by
  induction layers generalizing view views with
  | nil =>
    cases h with
    | base hdb wf => exact ⟨.base hdb wf, hdb.bestAnchor⟩
  | cons layer base ih =>
    cases h with
    | layer hrest sees wf =>
      obtain ⟨hbase, hhash⟩ := ih hrest
      have hbest := sees.bestAnchor
      unfold CacheLayer.getBestAnchor
      split_ifs with hnull
      · rw [if_pos hnull] at hbest
        dsimp only
        rw [hhash]
        refine ⟨.layer hbase { sees with bestAnchor := ?_ } wf, hbest.symm⟩
        rw [hbest]
        split <;> rfl
      · rw [if_neg hnull] at hbest
        exact ⟨.layer hrest sees wf, hbest.symm⟩

end StackSees

/-! ## Writes to a layer -/

namespace LayerSees

variable {layer : CacheLayer} {below view : PlainView}
variable {o : COutPoint}

variable (h : LayerSees root trees layer below view)
include h

/-- `AddCoin` neither fails nor hides a coin below: the new entry is fresh only where there is none. -/
theorem addCoin {coin : Coin} {overwrite : Bool}
    (hcoin : coin.isSpent = false) (hnew : overwrite = true ∨ view.coins o = none) :
    ∃ layer', layer.addCoin o coin overwrite = .ok layer' ∧ LayerSees root trees layer' below (view.addCoin o coin) := by
  unfold CacheLayer.addCoin PlainView.addCoin
  rw [require_pos hcoin, ok_bind]
  split
  · exact ⟨layer, rfl, h⟩
  dsimp only
  have hseen : coin.unspent = some coin := by simp [Coin.unspent, hcoin]
  have hspent : ∀ e : CCoinsCacheEntry, e.coin = coin → e.coin.isSpent = true → e.coin = coinEmpty := by
    intro e he hspent
    rw [he, hcoin] at hspent
    cases hspent
  have hfresh : ∀ e, layer.cacheCoins[o]? = some e → e.fresh = true → below.coins o = none := by
    intro e he hf
    have hholds := h.coins o
    rw [he] at hholds
    exact hholds.fresh_absent hf
  -- the entry that is written: fresh only where nothing is below
  have hput : ∀ f : Bool, (f = true → below.coins o = none) →
      LayerSees root trees { layer with
        cacheCoins := layer.cacheCoins.insert o { coin := coin, dirty := true, fresh := f } } below
        { view with coins := Function.update view.coins o (some coin) } := by
    intro f hf
    refine h.with_coins ?_ (.insert h.spent_empty (hspent _ rfl))
    rw [← hseen]
    exact h.coins.put (.of_dirty rfl hf)
  split_ifs with hno
  · refine ⟨_, rfl, hput _ ?_⟩
    cases hentry : layer.cacheCoins[o]? with
    | none => intro hf; cases hf
    | some e => exact hfresh e hentry
  · have hnone : view.coins o = none := hnew.resolve_left hno
    have hown : ((layer.cacheCoins[o]?).getD {}).coin.isSpent = true := by
      cases hentry : layer.cacheCoins[o]? with
      | none => rfl
      | some e =>
        have hsee : view.coins o = e.coin.unspent := h.coins.seen_eq hentry
        rw [hnone, Coin.unspent] at hsee
        cases hs : e.coin.isSpent with
        | true => exact hs
        | false => rw [hs] at hsee; cases hsee
    rw [require_pos hown, ok_bind]
    refine ⟨_, rfl, hput _ fun hf => ?_⟩
    have hholds := h.coins o
    cases hentry : layer.cacheCoins[o]? with
    | none =>
      rw [hentry] at hholds
      rw [← hholds.miss_eq, hnone]
    | some e =>
      rw [hentry] at hf hholds
      rcases Bool.or_eq_true_iff.mp hf with hf | hclean
      · exact hfresh e hentry hf
      · have hdirty : e.dirty = false := by simpa using hclean
        rw [← hholds.clean_eq hdirty, hnone]

/-- A fresh entry is erased with its coin, as nothing is below; any other stays as the entry of a spent coin. -/
theorem spendFetched
    (hfetched : layer.cacheCoins[o]? = none → view.coins o = none) :
    LayerSees root trees (layer.spendFetched o).2 below (view.spendCoin o) ∧
      (layer.spendFetched o).1 = (view.coins o).getD coinEmpty := by
  unfold CacheLayer.spendFetched PlainView.spendCoin
  cases hentry : layer.cacheCoins[o]? with
  | none =>
    rw [← hfetched hentry, Function.update_eq_self, hfetched hentry]
    exact ⟨h, rfl⟩
  | some entry =>
    have hholds := h.coins o
    rw [hentry] at hholds
    have hmoved : entry.coin = (view.coins o).getD coinEmpty := by
      rw [h.coins.seen_eq hentry]
      cases hs : entry.coin.isSpent with
      | true =>
        have hnone : coinReading.seen entry = none := if_pos hs
        rw [hnone, h.spent_empty o entry hentry hs]
        rfl
      | false => simp [coinReading, Coin.unspent, hs]
    dsimp only
    split_ifs with hfresh
    · refine ⟨h.with_coins ?_ (.erase h.spent_empty o), hmoved⟩
      have hdrop := h.coins.drop o
      rwa [hholds.fresh_absent hfresh] at hdrop
    · refine ⟨h.with_coins ?_ (.insert h.spent_empty fun _ => rfl), hmoved⟩
      exact h.coins.put (.of_dirty rfl fun hf => absurd hf hfresh)

/-- `Uncache` drops clean entries only, which say what is below anyway. -/
theorem uncache (o : COutPoint) : LayerSees root trees (layer.uncache o) below view := by
  unfold CacheLayer.uncache
  cases hentry : layer.cacheCoins[o]? with
  | none => exact h
  | some entry =>
    dsimp only
    split_ifs with hflags
    · exact h
    · refine h.with_coins (h.coins.uncache hentry ?_) (.erase h.spent_empty o)
      exact Bool.eq_false_iff.mpr fun hdirty => hflags (by rw [Bool.or_eq_true_iff]; exact .inl hdirty)

theorem setNullifiers (tx : CTransaction) (spent : Bool) :
    LayerSees root trees (layer.setNullifiers tx spent) below (view.setNullifiers tx spent) := by
  unfold CacheLayer.setNullifiers PlainView.setNullifiers
  cases tx.sapData with
  | none => exact h
  | some d =>
    refine h.with_nullifiers ?_
    -- one spend after the other
    have hall : ∀ (spends : List SpendDescription) cache above,
        nullifierReading.Through cache below.nullifiers above →
        nullifierReading.Through
          (spends.foldl (fun (m : FinMap uint256 CNullifiersCacheEntry) (spend : SpendDescription) =>
            m.insert spend.nullifier { entered := spent, dirty := true }) cache) below.nullifiers
          (spends.foldl (fun f spend => Function.update f spend.nullifier spent) above) := by
      intro spends
      induction spends with
      | nil => exact fun _ _ hthrough => hthrough
      | cons spend spends ih =>
        exact fun cache above hthrough => ih _ _ (hthrough.put (.of_dirty rfl fun hf => (by cases hf)))
    exact hall d.vShieldedSpend _ _ h.nullifiers

variable {tree : SaplingMerkleTree}

theorem enterAnchor (T : TreeSpace root trees)
    (htree : tree ∈ trees) (hne : root tree ≠ root []) :
    LayerSees root trees (layer.enterAnchor root tree) below { view with anchors := tree :: view.anchors } := by
  refine h.with_anchor ?_ ⟨htree, rfl⟩ (if_neg (T.root_ne_zero tree htree)).symm
  rw [PlainView.anchorAt_push hne]
  exact h.anchors.put (.of_dirty rfl fun hf => (by cases hf))

theorem removeAnchor (wf : view.Wf root trees) {rest : List SaplingMerkleTree} {entry : CAnchorsSaplingCacheEntry} {newrt : uint256}
    (hanchors : view.anchors = tree :: rest) (hentry : layer.cacheSaplingAnchors[root tree]? = some entry)
    (hnew : newrt = root (rest.headD [])) (hnew0 : newrt ≠ 0) :
    LayerSees root trees (layer.removeAnchor (root tree) newrt) below { view with anchors := rest } := by
  refine h.with_anchor ?_ ?_ ?_
  · rw [wf.anchorAt_tail hanchors]
    exact h.anchors.put (.of_dirty rfl fun hf => (by cases hf))
  · rw [hentry]
    exact h.entry_tree _ entry hentry
  · rw [if_neg hnew0, hnew]
    rfl

omit h

/-! ## Flushing into the cache below -/

variable {own : CacheLayer} {base : PlainView}

variable (hown : LayerSees root trees own base below)
include hown

/-- One coin of `BatchWrite`: the misapplied fresh flag does not occur, and what was seen above is seen here. -/
theorem mergeCoin (h : LayerSees root trees layer below view)
    {child : CCoinsCacheEntry} (hchild : layer.cacheCoins[o]? = some child) :
    ∃ e', CacheLayer.mergeCoin own.cacheCoins[o]? child = .ok e' ∧ coinReading.Holds e' (base.coins o) (view.coins o) ∧
      ∀ x, e' = some x → x.EmptyIfSpent o := by
  have hseen : view.coins o = child.coin.unspent := h.coins.seen_eq hchild
  have hholds := h.coins o
  have hbelow := hown.coins o
  rw [hchild] at hholds
  have hempty := h.spent_empty o child hchild
  unfold CacheLayer.mergeCoin
  split
  · rename_i hclean
    refine ⟨_, rfl, ?_, fun x hx => hown.spent_empty o x hx⟩
    rw [hholds.clean_eq hclean]
    exact hbelow
  rw [hseen]
  cases hus : own.cacheCoins[o]? with
  | none =>
    rw [hus] at hbelow
    split_ifs with hpruned
    · obtain ⟨hfresh, hspent⟩ := Bool.and_eq_true_iff.mp hpruned
      refine ⟨none, rfl, ?_, fun x hx => (by cases hx)⟩
      have hnone : base.coins o = none := by rw [← hbelow.miss_eq]; exact hholds.fresh_absent hfresh
      rw [hnone, Coin.unspent, if_pos hspent]
      exact .miss _
    · refine ⟨_, rfl, .of_dirty rfl fun hfresh => ?_, ?_⟩
      · rw [← hbelow.miss_eq]
        exact hholds.fresh_absent hfresh
      · intro x hx
        cases hx
        exact hempty
  | some us =>
    rw [hus] at hbelow
    have husSeen : below.coins o = us.coin.unspent := hbelow.seen_eq
    have happlied : ¬(child.fresh = true ∧ us.coin.isSpent = false) := by
      intro hmis
      have hnone : below.coins o = none := hholds.fresh_absent hmis.1
      rw [husSeen, Coin.unspent, hmis.2] at hnone
      cases hnone
    dsimp only
    rw [require_pos happlied, ok_bind]
    split_ifs with hpruned
    · obtain ⟨hfresh, hspent⟩ := Bool.and_eq_true_iff.mp hpruned
      refine ⟨none, rfl, ?_, fun x hx => (by cases hx)⟩
      have hnone : base.coins o = none := hbelow.fresh_absent hfresh
      rw [hnone, Coin.unspent, if_pos hspent]
      exact .miss _
    · refine ⟨_, rfl, .of_dirty rfl fun hfresh => ?_, ?_⟩
      · exact hbelow.fresh_absent hfresh
      · intro x hx
        cases hx
        exact hempty

/-- One tree of `BatchWrite`: an entry for the same root has the same tree, so that only its flag is taken over. -/
theorem mergeAnchor (h : LayerSees root trees layer below view)
    (T : TreeSpace root trees) {rt : uint256} {child : CAnchorsSaplingCacheEntry}
    (hchild : layer.cacheSaplingAnchors[rt]? = some child) :
    ∃ e', CacheLayer.mergeAnchor own.cacheSaplingAnchors[rt]? child = .ok e' ∧
      anchorReading.Holds e' (base.anchorAt root rt) (view.anchorAt root rt) ∧
      ∀ x, e' = some x → x.HasTree root trees rt := by
  have hseen : view.anchorAt root rt = child.anchor := h.anchors.seen_eq hchild
  have hholds := h.anchors rt
  have hbelow := hown.anchors rt
  rw [hchild] at hholds
  have htree := h.entry_tree rt child hchild
  unfold CacheLayer.mergeAnchor
  split
  · rename_i hclean
    refine ⟨_, rfl, ?_, fun x hx => hown.entry_tree rt x hx⟩
    rw [hholds.clean_eq hclean]
    exact hbelow
  rw [hseen]
  cases hus : own.cacheSaplingAnchors[rt]? with
  | none =>
    refine ⟨_, rfl, .of_dirty rfl fun hfresh => (by cases hfresh), ?_⟩
    intro x hx
    cases hx
    exact htree
  | some us =>
    have hown' := hown.entry_tree rt us hus
    -- both entries are of the same tree
    have hsame : us.tree = child.tree := T.injOn hown'.1 htree.1 (hown'.2.trans htree.2.symm)
    rw [hus] at hbelow
    dsimp only
    split_ifs with hentered
    · have hanchor : child.anchor = us.anchor := by
        rw [CAnchorsSaplingCacheEntry.anchor, CAnchorsSaplingCacheEntry.anchor, hentered, hsame]
      refine ⟨_, rfl, ?_, ?_⟩
      · rw [hanchor, ← show below.anchorAt root rt = us.anchor from hbelow.seen_eq]
        exact hbelow
      · intro x hx
        cases hx
        exact hown'
    · have hanchor : child.anchor = ({ us with entered := child.entered, dirty := true } :
          CAnchorsSaplingCacheEntry).anchor := by
        rw [CAnchorsSaplingCacheEntry.anchor, CAnchorsSaplingCacheEntry.anchor, hsame]
      refine ⟨_, rfl, ?_, ?_⟩
      · rw [hanchor]
        exact .of_dirty rfl fun hfresh => (by cases hfresh)
      · intro x hx
        cases hx
        exact hown'

theorem mergeNullifier (h : LayerSees root trees layer below view)
    {nf : uint256} {child : CNullifiersCacheEntry} (hchild : layer.cacheSaplingNullifiers[nf]? = some child) :
    ∃ e', CacheLayer.mergeNullifier own.cacheSaplingNullifiers[nf]? child = .ok e' ∧
      nullifierReading.Holds e' (base.nullifiers nf) (view.nullifiers nf) := by
  have hseen : view.nullifiers nf = child.entered := h.nullifiers.seen_eq hchild
  have hholds := h.nullifiers nf
  have hbelow := hown.nullifiers nf
  rw [hchild] at hholds
  unfold CacheLayer.mergeNullifier
  split
  · rename_i hclean
    refine ⟨_, rfl, ?_⟩
    rw [hholds.clean_eq hclean]
    exact hbelow
  rw [hseen]
  cases hus : own.cacheSaplingNullifiers[nf]? with
  | none => exact ⟨_, rfl, .of_dirty rfl fun hfresh => (by cases hfresh)⟩
  | some us =>
    rw [hus] at hbelow
    dsimp only
    split_ifs with hentered
    · refine ⟨_, rfl, ?_⟩
      rw [← hentered, ← show below.nullifiers nf = us.entered from hbelow.seen_eq]
      exact hbelow
    · exact ⟨_, rfl, .of_dirty rfl fun hfresh => (by cases hfresh)⟩

/-- The cache below has what was seen through the flushed one. -/
theorem batchWrite (h : LayerSees root trees layer below view)
    (T : TreeSpace root trees) (F : FlushEnv) (hblock : layer.hashBlock ≠ 0) (hanchor : layer.hashSaplingAnchor ≠ 0) :
    ∃ own', own.batchWrite F layer = .ok own' ∧ LayerSees root trees own' base view := by
  obtain ⟨coins, hcoins, hcoinsThrough, hspent⟩ := hown.coins.mergeAll (F.coinOrder_perm layer.cacheCoins)
    hown.spent_empty h.coins fun o child hchild => mergeCoin hown h hchild
  obtain ⟨anchors, hanchors, hanchorsThrough, htrees⟩ := hown.anchors.mergeAll
    (F.anchorOrder_perm layer.cacheSaplingAnchors) hown.entry_tree h.anchors
    fun rt child hchild => mergeAnchor hown h T hchild
  obtain ⟨nullifiers, hnullifiers, hnullifiersThrough, -⟩ := hown.nullifiers.mergeAll
    (F.nullifierOrder_perm layer.cacheSaplingNullifiers)
    (fun _ _ _ => trivial : ∀ (nf : uint256) (e : CNullifiersCacheEntry), own.cacheSaplingNullifiers[nf]? = some e →
      True) h.nullifiers fun nf child hchild => (mergeNullifier hown h hchild).imp fun e he =>
        ⟨he.1, he.2, fun _ _ => trivial⟩
  refine ⟨⟨layer.hashBlock, coins, layer.hashSaplingAnchor, anchors, nullifiers⟩, ?_,
    ⟨hcoinsThrough, hspent, hanchorsThrough, htrees, hnullifiersThrough, ?_, ?_⟩⟩
  · unfold CacheLayer.batchWrite
    rw [hcoins, ok_bind, hanchors, ok_bind, hnullifiers, ok_bind]
    rfl
  · rw [h.bestBlock, if_neg hblock, if_neg hblock]
  · rw [h.bestAnchor, if_neg hanchor, if_neg hanchor]

omit hown

/-- A flushed cache shows what is below it now. -/
theorem cleared (h : LayerSees root trees layer below view) (hblock : layer.hashBlock ≠ 0)
    (hanchor : layer.hashSaplingAnchor ≠ 0) : LayerSees root trees layer.cleared view view where
  coins := .empty _
  spent_empty := FinMap.forall_empty
  anchors := .empty _
  entry_tree := FinMap.forall_empty
  nullifiers := .empty _
  bestBlock := by rw [CacheLayer.cleared, h.bestBlock, if_neg hblock, if_neg hblock]
  bestAnchor := by rw [CacheLayer.cleared, h.bestAnchor, if_neg hanchor, if_neg hanchor]

/-- A flush into the database, whatever its order and however often it writes. -/
theorem batchWrite_db (hdb : DbSees root db below) (h : LayerSees root trees layer below view)
    (F : FlushEnv) (hblock : layer.hashBlock ≠ 0) (hanchor : layer.hashSaplingAnchor ≠ 0) :
    ∃ db', db.batchWrite F root layer = .ok db' ∧ DbSees root db' view := by
  have htip : db.oldTip layer.hashBlock = .ok db.getBestBlock := by
    rw [CCoinsViewDB.oldTip, CCoinsViewDB.getHeadBlocks, hdb.headBlocks]
    split <;> rfl
  obtain ⟨db', hrun, hcoins, hanchors, hnullifiers, hbest, hbestAnchor, hheads⟩ :=
    CCoinsViewDB.batchWrite_spec F hblock hanchor htip (hdb.coins ▸ h.coins) (hdb.anchors ▸ h.anchors)
      (if_pos rfl) (hdb.nullifiers ▸ h.nullifiers)
  refine ⟨db', hrun, ⟨hcoins, hanchors, hnullifiers, ?_, ?_, hheads⟩⟩
  · rw [hbest, h.bestBlock, if_neg hblock]
  · rw [hbestAnchor, h.bestAnchor, if_neg hanchor]

end LayerSees

/-! ## Calls -/

namespace PlainView

variable {view : PlainView}

variable (h : view.Wf root trees)
include h

theorem Wf.update (o : COutPoint) {c : Option Coin}
    (hc : ∀ coin, c = some coin → coin.isSpent = false) :
    ({ view with coins := Function.update view.coins o c } : PlainView).Wf root trees := by
  refine { h with unspent := fun o' coin hget => ?_ }
  have hget' : Function.update view.coins o c o' = some coin := hget
  by_cases heq : o' = o
  · subst heq
    rw [Function.update_self] at hget'
    exact hc coin hget'
  · rw [Function.update_of_ne heq] at hget'
    exact h.unspent o' coin hget'

theorem Wf.addCoin (o : COutPoint) {coin : Coin} (hcoin : coin.isSpent = false) :
    (view.addCoin o coin).Wf root trees := by
  unfold PlainView.addCoin
  split
  · exact h
  · exact h.update o fun c hc => by cases hc; exact hcoin

theorem Wf.setNullifiers (tx : CTransaction) (spent : Bool) : (view.setNullifiers tx spent).Wf root trees := by
  unfold PlainView.setNullifiers
  cases tx.sapData with
  | none => exact h
  | some d => exact { h with }

theorem Wf.push {tree : SaplingMerkleTree} (htree : tree ∈ trees)
    (hnew : root tree ∉ view.anchors.map root) (hne : root tree ≠ root []) :
    ({ view with anchors := tree :: view.anchors } : PlainView).Wf root trees where
  unspent := h.unspent
  mem_trees := List.forall_mem_cons.mpr ⟨htree, h.mem_trees⟩
  nodup := List.nodup_cons.mpr ⟨hnew, h.nodup⟩
  nil_notMem hmem := (List.mem_cons.mp hmem).elim (fun heq => hne heq.symm) h.nil_notMem

theorem Wf.tail {tree : SaplingMerkleTree} {rest : List SaplingMerkleTree}
    (hanchors : view.anchors = tree :: rest) : ({ view with anchors := rest } : PlainView).Wf root trees where
  unspent := h.unspent
  mem_trees t ht := h.mem_trees t (by rw [hanchors]; exact List.mem_cons_of_mem tree ht)
  nodup := by
    have hnodup := h.nodup
    rw [hanchors, List.map_cons, List.nodup_cons] at hnodup
    exact hnodup.2
  nil_notMem hmem := h.nil_notMem (by rw [hanchors, List.map_cons]; exact List.mem_cons_of_mem _ hmem)

end PlainView

variable (root trees) in
/-- How the caches may be called. Only the topmost is changed; coins are added without `possible_overwrite` where
there is none, trees are pushed and popped as on a stack, and a flushed cache has its best block and best anchor. -/
def CacheOp.Allowed (s : ViewStack) (view : PlainView) : CacheOp → Prop
  | .read level _ => level ≤ s.layers.length
  | .addCoin o _ possible_overwrite => s.layers ≠ [] ∧ (possible_overwrite = true ∨ view.coins o = none)
  | .spendCoin _ | .uncache _ | .setNullifiers _ _ | .dropCache => s.layers ≠ []
  | .pushAnchor tree => s.layers ≠ [] ∧ tree ∈ trees ∧
      (root tree = view.bestAnchor root ∨ root tree ∉ view.anchors.map root ∧ root tree ≠ root [])
  | .popAnchor newrt => s.layers ≠ [] ∧
      (newrt = view.bestAnchor root ∨ view.anchors ≠ [] ∧ newrt = view.previousAnchor root)
  | .setBestBlock hash => s.layers ≠ [] ∧ hash ≠ 0
  | .flush _ => ∃ layer ∈ s.layers.head?, layer.hashBlock ≠ 0 ∧ layer.hashSaplingAnchor ≠ 0
  | .openCache => True

/-- `GetCoin` of an outpoint for which a cache holds the entry of a spent coin. -/
def CacheOp.ReadsSpentEntry (s : ViewStack) : CacheOp → Prop
  | .read level (.getCoin o) => CacheLayer.spentEntry o (s.layers.drop level) = true
  | _ => False

/-! ## What a read leaves in the topmost cache -/

section Top

variable (db : CCoinsViewDB) (layer : CacheLayer) (base : List CacheLayer)

/-- After `GetCoin` the topmost cache has an entry unless there is no coin. -/
theorem getCoin_top (o : COutPoint) : ∃ layer' base', (CacheLayer.getCoin db o (layer :: base)).2 = layer' :: base' ∧
    (layer'.cacheCoins[o]? = none → (CacheLayer.getCoin db o (layer :: base)).1 = none) := by
  unfold CacheLayer.getCoin
  cases hentry : layer.cacheCoins[o]? with
  | some entry => exact ⟨layer, base, rfl, fun hnone => by rw [hentry] at hnone; cases hnone⟩
  | none =>
    cases hget : CacheLayer.getCoin db o base with
    | mk coin base' =>
    cases coin with
    | none => exact ⟨layer, base', rfl, fun _ => rfl⟩
    | some tmp =>
      refine ⟨_, base', rfl, fun hnone => ?_⟩
      rw [FinMap.get_insert_self] at hnone
      cases hnone

theorem getSaplingAnchorAt_top (root : SaplingMerkleTree → uint256) (rt : uint256) :
    ∃ layer' base', (CacheLayer.getSaplingAnchorAt root db rt (layer :: base)).2 = layer' :: base' ∧
      ((CacheLayer.getSaplingAnchorAt root db rt (layer :: base)).1.isSome = true →
        ∃ entry, layer'.cacheSaplingAnchors[rt]? = some entry) := by
  unfold CacheLayer.getSaplingAnchorAt
  cases hentry : layer.cacheSaplingAnchors[rt]? with
  | some entry => exact ⟨layer, base, rfl, fun _ => ⟨entry, hentry⟩⟩
  | none =>
    cases hget : CacheLayer.getSaplingAnchorAt root db rt base with
    | mk tree base' =>
    cases tree with
    | none => exact ⟨layer, base', rfl, fun hsome => (by cases hsome)⟩
    | some tree => exact ⟨_, base', rfl, fun _ => ⟨_, FinMap.get_insert_self _ _ _⟩⟩

theorem getBestAnchor_ne_nil (root : SaplingMerkleTree → uint256) (hne : layers ≠ []) :
    (CacheLayer.getBestAnchor root db layers).2 ≠ [] := by
  obtain ⟨layer, base, rfl⟩ := List.exists_cons_of_ne_nil hne
  unfold CacheLayer.getBestAnchor
  split <;> exact List.cons_ne_nil _ _

end Top

/-! ## One call -/

namespace StackSees

variable {db : CCoinsViewDB} {layers : List CacheLayer} {view : PlainView} {views : List PlainView}

variable (h : StackSees root trees db layers (view :: views))
include h

/-- A read gives the answer of the view exactly if it does not meet the entry of a spent coin. -/
theorem readFrom (T : TreeSpace root trees) (r : CacheRead) :
    StackSees root trees db (ViewStack.readFrom root db layers r).2 (view :: views) ∧
      ((ViewStack.readFrom root db layers r).1 = view.answer root r ↔
        ¬ CacheOp.ReadsSpentEntry ⟨layers, db⟩ (.read 0 r)) := by
  cases r with
  | getCoin o =>
    obtain ⟨hsees, hcoin, hnone⟩ := h.getCoin o
    refine ⟨hsees, ?_⟩
    show CacheAnswer.coin (CacheLayer.getCoin db o layers).1 = .coin (view.coins o) ↔
      ¬ CacheLayer.spentEntry o layers = true
    rw [hcoin, CacheAnswer.coin.injEq]
    split_ifs with hspent
    · simp [hspent, hnone hspent]
    · simp [hspent]
  | haveCoin o =>
    obtain ⟨hsees, hflag⟩ := h.haveCoin o
    exact ⟨hsees, fun _ hfalse => hfalse, fun _ => congrArg CacheAnswer.flag hflag⟩
  | getNullifier nf =>
    obtain ⟨hsees, hflag⟩ := h.getNullifier nf
    exact ⟨hsees, fun _ hfalse => hfalse, fun _ => congrArg CacheAnswer.flag hflag⟩
  | getSaplingAnchorAt rt =>
    obtain ⟨hsees, htree⟩ := h.getSaplingAnchorAt T rt
    exact ⟨hsees, fun _ hfalse => hfalse, fun _ => congrArg CacheAnswer.tree htree⟩
  | getBestAnchor =>
    obtain ⟨hsees, hhash⟩ := h.getBestAnchor
    exact ⟨hsees, fun _ hfalse => hfalse, fun _ => congrArg CacheAnswer.hash hhash⟩
  | getBestBlock =>
    obtain ⟨hsees, hhash⟩ := h.getBestBlock
    exact ⟨hsees, fun _ hfalse => hfalse, fun _ => congrArg CacheAnswer.hash hhash⟩

theorem top (hne : layers ≠ []) :
    ∃ layer base below rest, layers = layer :: base ∧ views = below :: rest ∧
      StackSees root trees db base (below :: rest) ∧ LayerSees root trees layer below view := by
  cases h with
  | base => exact absurd rfl hne
  | layer hrest sees wf => exact ⟨_, _, _, _, rfl, rfl, hrest, sees⟩

theorem spendCoin (hne : layers ≠ []) (o : COutPoint) :
    ∃ s', (⟨layers, db⟩ : ViewStack).spendCoin o = .ok (.moved ((view.coins o).getD coinEmpty), s') ∧
      StackSees root trees s'.db s'.layers (view.spendCoin o :: views) := by
  obtain ⟨hsees, hcoin, hnone⟩ := h.getCoin o
  obtain ⟨layer, base, rfl⟩ := List.exists_cons_of_ne_nil hne
  obtain ⟨layer', base', htop, hmiss⟩ := getCoin_top db layer base o
  rw [htop] at hsees
  obtain ⟨_, _, below, rest, ⟨⟩, rfl, hrest, sees⟩ := hsees.top (List.cons_ne_nil _ _)
  have hfetched : layer'.cacheCoins[o]? = none → view.coins o = none := by
    intro habsent
    have hget := hmiss habsent
    rw [hcoin] at hget
    split at hget
    · cases hget
    · exact hget
  obtain ⟨hspent, hmoved⟩ := sees.spendFetched hfetched
  refine ⟨⟨(layer'.spendFetched o).2 :: base', db⟩, ?_, .layer hrest hspent (h.wf.update o fun c hc => nomatch hc)⟩
  unfold ViewStack.spendCoin ViewStack.onTop
  rw [htop, ← hmoved]

variable (T : TreeSpace root trees)
include T

theorem pushAnchor
    (hne : layers ≠ []) {tree : SaplingMerkleTree} (htree : tree ∈ trees)
    (hnew : root tree = view.bestAnchor root ∨ root tree ∉ view.anchors.map root ∧ root tree ≠ root []) :
    ∃ s', (⟨layers, db⟩ : ViewStack).pushAnchor root tree = .ok (.done, s') ∧
      StackSees root trees s'.db s'.layers (view.pushAnchor root tree :: views) := by
  obtain ⟨hsees, hbest⟩ := h.getBestAnchor
  obtain ⟨layer, base, below, rest, hlayers, rfl, hrest, sees⟩ := hsees.top (getBestAnchor_ne_nil db root hne)
  unfold ViewStack.pushAnchor ViewStack.onTop PlainView.pushAnchor
  dsimp only
  rw [hlayers, hbest]
  split_ifs with hsame
  · exact ⟨_, rfl, .layer hrest sees h.wf⟩
  · obtain ⟨hnotMem, hnil⟩ := hnew.resolve_left fun heq => hsame heq.symm
    exact ⟨_, rfl, .layer hrest (sees.enterAnchor T htree hnil) (h.wf.push htree hnotMem hnil)⟩

/-- `PopAnchor` finds the tree to remove, since it first brings the best anchor into the topmost cache. -/
theorem popAnchor (hne : layers ≠ [])
    {newrt : uint256}
    (hold : newrt = view.bestAnchor root ∨ view.anchors ≠ [] ∧ newrt = view.previousAnchor root) :
    ∃ s', (⟨layers, db⟩ : ViewStack).popAnchor root newrt = .ok (.done, s') ∧
      StackSees root trees s'.db s'.layers (view.popAnchor root newrt :: views) := by
  obtain ⟨hsees, hbest⟩ := h.getBestAnchor
  obtain ⟨layer, base, hlayers⟩ := List.exists_cons_of_ne_nil (getBestAnchor_ne_nil db root hne)
  unfold ViewStack.popAnchor PlainView.popAnchor
  dsimp only
  rw [hbest]
  split
  · exact ⟨_, rfl, hsees⟩
  rename_i hother
  obtain ⟨hanchors, hprev⟩ := hold.resolve_left fun heq => hother heq.symm
  obtain ⟨tree, rest, hstack⟩ := List.exists_cons_of_ne_nil hanchors
  have hbestTree : view.bestAnchor root = root tree := by rw [PlainView.bestAnchor, hstack]; rfl
  have hwf := h.wf.tail hstack
  -- the best anchor is brought into the topmost cache
  have hat : view.anchorAt root (root tree) = some tree := by
    rw [PlainView.anchorAt, if_neg fun heq => h.wf.nil_notMem (by
      rw [hstack, ← heq, List.map_cons]; exact List.mem_cons_self), hstack]
    simp
  rw [hlayers] at hsees
  obtain ⟨hsees', htree⟩ := hsees.getSaplingAnchorAt T (root tree)
  obtain ⟨layer', base', htop, hentry⟩ := getSaplingAnchorAt_top db layer base root (root tree)
  rw [htop] at hsees'
  obtain ⟨_, _, below, views', ⟨⟩, rfl, hrest, sees⟩ := hsees'.top (List.cons_ne_nil _ _)
  rw [hat] at htree
  obtain ⟨entry, hentry⟩ := hentry (by rw [htree]; rfl)
  have hnew0 : newrt ≠ 0 := by rw [hprev, PlainView.previousAnchor, hstack]; exact hwf.bestAnchor_ne_zero T
  have hnewrt : newrt = root (rest.headD []) := by rw [hprev, PlainView.previousAnchor, hstack]; rfl
  have hremoved := sees.removeAnchor h.wf hstack hentry hnewrt hnew0
  rw [hbestTree, hlayers, htree, htop, hstack]
  exact ⟨_, rfl, .layer hrest hremoved hwf⟩

/-- `Flush` into the cache below, or into the database. -/
theorem flush (F : FlushEnv)
    (hset : ∃ layer ∈ layers.head?, layer.hashBlock ≠ 0 ∧ layer.hashSaplingAnchor ≠ 0) :
    ∃ s', (⟨layers, db⟩ : ViewStack).flush root F = .ok (.flag true, s') ∧
      StackSees root trees s'.db s'.layers (view :: view :: views.tail) := by
  obtain ⟨layer, hhead, hblock, hanchor⟩ := hset
  cases h with
  | base => cases hhead
  | layer hrest sees wf =>
    cases hhead
    cases hrest with
    | base hdb hwf =>
      obtain ⟨db', hrun, hdb'⟩ := sees.batchWrite_db hdb F hblock hanchor
      refine ⟨⟨[layer.cleared], db'⟩, ?_, .layer (.base hdb' wf) (sees.cleared hblock hanchor) wf⟩
      unfold ViewStack.flush ViewStack.onTop
      dsimp only
      rw [hrun]
      rfl
    | layer hrest' sees' hwf =>
      rename_i own base' base views'
      obtain ⟨own', hrun, hown⟩ := sees'.batchWrite sees T F hblock hanchor
      refine ⟨⟨layer.cleared :: own' :: base', db⟩, ?_,
        .layer (.layer hrest' hown wf) (sees.cleared hblock hanchor) wf⟩
      unfold ViewStack.flush ViewStack.onTop
      dsimp only
      rw [hrun]
      rfl

/-- One call, as the plain views make it. The answer is theirs unless the entry of a spent coin is read. -/
theorem step {op : CacheOp}
    (hop : op.Allowed root trees ⟨layers, db⟩ view) :
    ∃ answer s', (⟨layers, db⟩ : ViewStack).step root op = .ok (answer, s') ∧
      StackSees root trees s'.db s'.layers (PlainView.step root (view :: views) op).2 ∧
      (answer = (PlainView.step root (view :: views) op).1 ↔ ¬ op.ReadsSpentEntry ⟨layers, db⟩) := by
  have hexact : ∀ {answer : CacheAnswer}, answer = answer ↔ ¬ False := by simp
  cases op with
  | read level r =>
    obtain ⟨v, rest, hdrop, hsees, hback⟩ := h.at_level hop
    obtain ⟨hread, hanswer⟩ := hsees.readFrom T r
    have hget : (view :: views)[level]? = some v := by
      rw [← List.head?_drop, hdrop]
      rfl
    have hplain : (PlainView.step root (view :: views) (.read level r)).1 = v.answer root r := by
      show (((view :: views)[level]?).map fun view => view.answer root r).getD .done = v.answer root r
      rw [hget]
      rfl
    refine ⟨_, _, rfl, hback _ hread, ?_⟩
    rw [hplain]
    refine hanswer.trans (not_congr ?_)
    cases r <;> rfl
  | addCoin o coin overwrite =>
    obtain ⟨layer, base, below, rest, rfl, rfl, hrest, sees⟩ := h.top hop.1
    obtain ⟨layer', hadd, hsees⟩ := sees.addCoin coin.2 hop.2
    refine ⟨.done, ⟨layer' :: base, db⟩, ?_, .layer hrest hsees (h.wf.addCoin o coin.2), hexact⟩
    simp only [ViewStack.step, ViewStack.onTop, hadd, ok_bind]
    rfl
  | spendCoin o =>
    obtain ⟨s', hrun, hsees⟩ := h.spendCoin hop o
    exact ⟨_, s', hrun, hsees, hexact⟩
  | uncache o =>
    obtain ⟨layer, base, below, rest, rfl, rfl, hrest, sees⟩ := h.top hop
    exact ⟨_, _, rfl, .layer hrest (sees.uncache o) h.wf, hexact⟩
  | setNullifiers tx spent =>
    obtain ⟨layer, base, below, rest, rfl, rfl, hrest, sees⟩ := h.top hop
    exact ⟨_, _, rfl, .layer hrest (sees.setNullifiers tx spent) (h.wf.setNullifiers tx spent), hexact⟩
  | pushAnchor tree =>
    obtain ⟨s', hrun, hsees⟩ := h.pushAnchor T hop.1 hop.2.1 hop.2.2
    exact ⟨_, s', hrun, hsees, hexact⟩
  | popAnchor newrt =>
    obtain ⟨s', hrun, hsees⟩ := h.popAnchor T hop.1 hop.2
    exact ⟨_, s', hrun, hsees, hexact⟩
  | setBestBlock hash =>
    obtain ⟨layer, base, below, rest, rfl, rfl, hrest, sees⟩ := h.top hop.1
    refine ⟨_, _, rfl, .layer hrest { sees with bestBlock := ?_ } { h.wf with }, hexact⟩
    exact (if_neg hop.2).symm
  | flush F =>
    obtain ⟨s', hrun, hsees⟩ := h.flush T F hop
    refine ⟨_, s', hrun, ?_, hexact⟩
    rw [← List.drop_one] at hsees
    exact hsees
  | openCache => exact ⟨_, _, rfl, .layer h (.new view) h.wf, hexact⟩
  | dropCache =>
    obtain ⟨layer, base, below, rest, rfl, rfl, hrest, sees⟩ := h.top hop
    exact ⟨_, _, rfl, hrest, hexact⟩

end StackSees

/-! ## Runs -/

variable (root trees) in
def ViewStack.RunAllowed : ViewStack → List PlainView → List CacheOp → Prop
  | _, _, [] => True
  | s, views, op :: ops => (∃ view ∈ views.head?, op.Allowed root trees s view) ∧
      ∀ answer s', s.step root op = .ok (answer, s') → RunAllowed s' (PlainView.step root views op).2 ops

variable (root) in
/-- No `GetCoin` of the run meets the entry of a spent coin. -/
def ViewStack.NoSpentEntryRead : ViewStack → List CacheOp → Prop
  | _, [] => True
  | s, op :: ops => ¬ op.ReadsSpentEntry s ∧
      ∀ answer s', s.step root op = .ok (answer, s') → NoSpentEntryRead s' ops

end Sees

variable {root : SaplingMerkleTree → uint256} {trees : Set SaplingMerkleTree}

/-- The caches over a database answer as plain maps do, call after call, unless `GetCoin` meets the entry of a coin that
is spent. -/
theorem cache_layers_plain_iff (T : TreeSpace root trees) {db : CCoinsViewDB} {view : PlainView}
    (hdb : DbSees root db view) (wf : view.Wf root trees) {ops : List CacheOp}
    (hops : ViewStack.RunAllowed root trees ⟨[], db⟩ [view] ops) :
    ∃ answers s', (⟨[], db⟩ : ViewStack).run root ops = .ok (answers, s') ∧
      StackSees root trees s'.db s'.layers (PlainView.run root [view] ops).2 ∧
      (answers = (PlainView.run root [view] ops).1 ↔ ViewStack.NoSpentEntryRead root ⟨[], db⟩ ops) := by
  suffices H : ∀ (ops : List CacheOp) (s : ViewStack) (views : List PlainView),
      StackSees root trees s.db s.layers views → ViewStack.RunAllowed root trees s views ops →
      ∃ answers s', s.run root ops = .ok (answers, s') ∧
        StackSees root trees s'.db s'.layers (PlainView.run root views ops).2 ∧
        (answers = (PlainView.run root views ops).1 ↔ ViewStack.NoSpentEntryRead root s ops) from
    H ops ⟨[], db⟩ [view] (.base hdb wf) hops
  intro ops
  induction ops with
  | nil => exact fun s views h _ => ⟨[], s, rfl, h, fun _ => trivial, fun _ => rfl⟩
  | cons op ops ih =>
    intro s views h hops
    obtain ⟨⟨v, hv, hop⟩, hrest⟩ := hops
    obtain ⟨rest, rfl⟩ : ∃ rest, views = v :: rest := ⟨views.tail, (List.cons_head?_tail hv).symm⟩
    obtain ⟨answer, s₁, hstep, hsees, hanswer⟩ := h.step T hop
    obtain ⟨answers, s', hrun, hsees', hanswers⟩ := ih s₁ _ hsees (hrest answer s₁ hstep)
    refine ⟨answer :: answers, s', ?_, hsees', ?_⟩
    · unfold ViewStack.run
      rw [hstep, ok_bind]
      dsimp only
      rw [hrun]
      rfl
    · unfold PlainView.run ViewStack.NoSpentEntryRead
      rw [List.cons.injEq, hanswer, hanswers]
      refine and_congr_right fun _ => ⟨fun hno answer' s₂ hstep' => ?_, fun hno => hno answer s₁ hstep⟩
      rw [hstep] at hstep'
      cases hstep'
      exact hno

namespace Sample

def cacheRoot (tree : SaplingMerkleTree) : uint256 := if tree = [] then 1 else 2

def cachedCoin : UnspentCoin := ⟨⟨⟨5, [0x51]⟩, false, false, 3⟩, rfl⟩

def cachedOutpoint : COutPoint := ⟨9, 0⟩

def flushInOrder : FlushEnv where
  coinOrder m := m.toList
  coinOrder_perm _ := .refl _
  anchorOrder m := m.toList
  anchorOrder_perm _ := .refl _
  nullifierOrder m := m.toList
  nullifierOrder_perm _ := .refl _
  sizeEstimate ws := ws.length
  batch_size := 1

def emptyView : PlainView := ⟨fun _ => none, fun _ => false, [], 0⟩

theorem treeSpace : TreeSpace cacheRoot {[], [5]} where
  injOn := by
    rintro t (rfl | rfl) t' (rfl | rfl) heq <;> first | rfl | exact absurd heq (by decide)
  root_ne_zero := by rintro t (rfl | rfl) <;> decide
  nil_mem := .inl rfl

theorem dbSees_empty : DbSees cacheRoot {} emptyView where
  coins := funext fun o => FinMap.get_empty o
  anchors := funext fun rt => by
    unfold CCoinsViewDB.getSaplingAnchorAt PlainView.anchorAt
    rw [FinMap.get_empty]
    rfl
  nullifiers := funext fun nf => by
    unfold CCoinsViewDB.getNullifier
    rw [FinMap.get_empty]
    rfl
  bestBlock := rfl
  bestAnchor := rfl
  headBlocks := rfl

theorem emptyView_wf : emptyView.Wf cacheRoot {[], [5]} where
  unspent o coin h := by cases h
  mem_trees t h := by cases h
  nodup := List.nodup_nil
  nil_notMem := List.not_mem_nil

def cacheRun : List CacheOp :=
  [.openCache, .setBestBlock 7, .pushAnchor [5], .addCoin cachedOutpoint cachedCoin false, .flush flushInOrder,
    .read 0 (.haveCoin cachedOutpoint)]

theorem cacheRun_allowed : ViewStack.RunAllowed cacheRoot {[], [5]} ⟨[], {}⟩ [emptyView] cacheRun := by
  refine ⟨⟨_, rfl, trivial⟩, ?_⟩
  rintro _ _ ⟨⟩
  refine ⟨⟨_, rfl, List.cons_ne_nil _ _, by decide⟩, ?_⟩
  rintro _ _ ⟨⟩
  refine ⟨⟨_, rfl, List.cons_ne_nil _ _, .inr rfl, .inr ⟨List.not_mem_nil, by decide⟩⟩, ?_⟩
  rintro _ _ ⟨⟩
  refine ⟨⟨_, rfl, List.cons_ne_nil _ _, .inr rfl⟩, ?_⟩
  rintro _ _ ⟨⟩
  refine ⟨⟨_, rfl, _, rfl, by decide, by decide⟩, ?_⟩
  exact fun _ _ _ => ⟨⟨_, rfl, Nat.zero_le _⟩, fun _ _ _ => trivial⟩

def fundedDB : CCoinsViewDB := { coins := (∅ : FinMap COutPoint Coin).insert cachedOutpoint cachedCoin.1 }

def fundedView : PlainView := { emptyView with coins := Function.update emptyView.coins cachedOutpoint (some cachedCoin.1) }

theorem dbSees_funded : DbSees cacheRoot fundedDB fundedView where
  coins := funext fun o => by
    show ((∅ : FinMap COutPoint Coin).insert cachedOutpoint cachedCoin.1)[o]? =
      Function.update emptyView.coins cachedOutpoint (some cachedCoin.1) o
    rw [FinMap.get_insert, FinMap.get_empty]
    by_cases heq : cachedOutpoint = o
    · subst heq
      rw [if_pos rfl, Function.update_self]
    · rw [if_neg heq, Function.update_of_ne (Ne.symm heq)]
      rfl
  anchors := dbSees_empty.anchors
  nullifiers := dbSees_empty.nullifiers
  bestBlock := rfl
  bestAnchor := rfl
  headBlocks := rfl

def spendThenGet : List CacheOp :=
  [.openCache, .spendCoin cachedOutpoint, .read 0 (.getCoin cachedOutpoint)]

end Sample

open Sample

/-- A cache is filled and flushed into the database, and read again. -/
theorem cache_layers_plain_flushed : ∃ answers s',
    (⟨[], {}⟩ : ViewStack).run cacheRoot cacheRun = .ok (answers, s') ∧
      answers = (PlainView.run cacheRoot [emptyView] cacheRun).1 := by
  obtain ⟨answers, s', hrun, -, hanswers⟩ :=
    cache_layers_plain_iff treeSpace dbSees_empty emptyView_wf cacheRun_allowed
  refine ⟨answers, s', hrun, hanswers.mpr ?_⟩
  refine ⟨id, fun _ _ _ => ⟨id, fun _ _ _ => ⟨id, fun _ _ _ => ⟨id, fun _ _ _ => ⟨id, fun _ _ _ => ⟨id, ?_⟩⟩⟩⟩⟩⟩
  exact fun _ _ _ => trivial

/-- A coin of the database is spent in a cache: `GetCoin` still finds it, as an empty coin. -/
theorem cache_spent_coin_found : DbSees cacheRoot fundedDB fundedView ∧
    ViewStack.RunAllowed cacheRoot {[], [5]} ⟨[], fundedDB⟩ [fundedView] spendThenGet ∧
    (∃ s', (⟨[], fundedDB⟩ : ViewStack).run cacheRoot spendThenGet =
      .ok ([.done, .moved cachedCoin.1, .coin (some coinEmpty)], s')) ∧
    (PlainView.run cacheRoot [fundedView] spendThenGet).1 =
      [.done, .moved cachedCoin.1, .coin none] := by
  refine ⟨dbSees_funded, ?_, ⟨_, rfl⟩, rfl⟩
  refine ⟨⟨_, rfl, trivial⟩, ?_⟩
  rintro _ _ ⟨⟩
  refine ⟨⟨_, rfl, List.cons_ne_nil _ _⟩, ?_⟩
  exact fun _ _ _ => ⟨⟨_, rfl, Nat.zero_le _⟩, fun _ _ _ => trivial⟩

end TrumpCoin
