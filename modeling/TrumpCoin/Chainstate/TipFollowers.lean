import Mathlib.Data.List.Induction
import TrumpCoin.Chainstate.Navigation

/-!
# What follows the tip

Two components are told when `ConnectTip` and `DisconnectTip` (`validation.cpp`) move the tip. The patriotnode manager
keeps the hashes of the last 200 blocks in a `CyclingVector` (`cyclingvector.h`), and the wallet (`wallet/wallet.cpp`)
keeps the hash, the time and the height of the last block.

- `cached_hashes_right`: the cached hashes are those of the active chain, whatever the tip did;
- `last_block_right_iff`: `BlockDisconnected` sets the height of the parent but the hash and the time of the block that
  was disconnected.
-/

namespace TrumpCoin

open CBlockIndex

inductive TipChange where
  | connect (hash : uint256)
  | disconnect

/-- `UpdateTip`. The genesis block is never disconnected. -/
def CBlockIndex.updateTip : CBlockIndex → TipChange → CBlockIndex
  | tip, .connect hash => child tip hash
  | genesis hash, .disconnect => genesis hash
  | child pprev _, .disconnect => pprev

/-- The tip and what follows it, after some moves. -/
def followTip {σ : Type} (follow : σ → CBlockIndex → TipChange → σ) (tip : CBlockIndex) (s : σ)
    (changes : List TipChange) : CBlockIndex × σ :=
  changes.foldl (fun r c => (r.1.updateTip c, follow r.2 r.1 c)) (tip, s)

section Runs

variable {σ : Type} {f : σ → CBlockIndex → TipChange → σ} {tip : CBlockIndex} {s : σ} {changes : List TipChange}

theorem fst_followTip : (followTip f tip s changes).1 = changes.foldl updateTip tip := by
  induction changes generalizing tip s with
  | nil => rfl
  | cons c changes ih => exact ih

theorem snd_followTip_concat (c : TipChange) : (followTip f tip s (changes ++ [c])).2 =
    f (followTip f tip s changes).2 (changes.foldl updateTip tip) c := by
  rw [← fst_followTip (f := f) (s := s)]
  simp [followTip]

end Runs

/-! ## The cached hashes -/

structure CyclingVector (α : Type) (MAX_SIZE : Nat) where
  vec : Fin MAX_SIZE → α

namespace CyclingVector

variable {α : Type} {MAX_SIZE : Nat} [NeZero MAX_SIZE] (v : CyclingVector α MAX_SIZE)

def get (idx : Nat) : α := v.vec (Fin.ofNat MAX_SIZE idx)

def set (idx : Nat) (value : α) : CyclingVector α MAX_SIZE := ⟨Function.update v.vec (Fin.ofNat MAX_SIZE idx) value⟩

theorem get_set (i j : Nat) (value : α) :
    (v.set i value).get j = if i % MAX_SIZE = j % MAX_SIZE then value else v.get j := by
  simp [get, set, Function.update_apply, Fin.ext_iff, eq_comm]

end CyclingVector

/-- `cvLastBlockHashes`, of the size `CACHED_BLOCK_HASHES`. -/
abbrev BlockHashes := CyclingVector uint256 200

namespace BlockHashes

variable (v : BlockHashes)

def cacheBlockHash (pindex : CBlockIndex) : BlockHashes := v.set pindex.nHeight pindex.getBlockHash

def uncacheBlockHash (pindex : CBlockIndex) : BlockHashes := v.set pindex.nHeight 0

/-- `LoadBlockHashesCache`, with `n` hashes to go. -/
def loadBlockHashesCache : (n : Nat) → CBlockIndex → BlockHashes → BlockHashes
  | 0, _, v => v
  | _ + 1, genesis hash, v => v.cacheBlockHash (genesis hash)
  | n + 1, child pprev hash, v => loadBlockHashesCache n pprev (v.cacheBlockHash (child pprev hash))

/-- `DisconnectTip` puts the hash of the block 200 below in the place of the one that is removed. -/
def disconnectTip (pindexDelete : CBlockIndex) : BlockHashes :=
  if 200 ≤ pindexDelete.nHeight then
    ((pindexDelete.at? (pindexDelete.nHeight - 200)).map v.cacheBlockHash).getD v
  else v.uncacheBlockHash pindexDelete

def follow : CBlockIndex → TipChange → BlockHashes
  | tip, .connect hash => v.cacheBlockHash (child tip hash)
  | genesis _, .disconnect => v
  | child pprev hash, .disconnect => v.disconnectTip (child pprev hash)

/-- The hashes of the last `n` blocks. -/
def Caches (tip : CBlockIndex) (n : Nat) : Prop :=
  ∀ h ≤ tip.nHeight, tip.nHeight < h + n → (tip.at? h).map getBlockHash = some (v.get h)

variable {v} {tip : CBlockIndex}

/-- A place is written again only for a height that is a multiple of 200 away. -/
theorem get_loadBlockHashesCache {n j : Nat} (hj : ∀ i ≤ tip.nHeight, tip.nHeight < i + n → i % 200 ≠ j % 200) :
    (loadBlockHashesCache n tip v).get j = v.get j := by
  fun_induction loadBlockHashesCache n tip v with
  | case1 => rfl
  | case2 n hash v => exact (v.get_set ..).trans (if_neg (hj 0 (Nat.le_refl 0) (by simp [nHeight])))
  | case3 n pprev hash v ih =>
    rw [nHeight_child] at hj
    rw [ih fun i hi hn => hj i (by omega) (by omega)]
    exact (v.get_set ..).trans (if_neg (hj _ (Nat.le_refl _) (by omega)))

theorem caches_loadBlockHashesCache {n : Nat} (hn : n ≤ 200) (v : BlockHashes) :
    (loadBlockHashesCache n tip v).Caches tip n := by
  intro h hle hlt
  fun_induction loadBlockHashesCache n tip v with
  | case1 => omega
  | case2 n hash v =>
    obtain rfl : h = 0 := Nat.le_zero.mp hle
    exact congrArg some ((v.get_set ..).trans (if_pos rfl)).symm
  | case3 n pprev hash v ih =>
    rw [nHeight_child] at hle hlt
    rcases Nat.eq_or_lt_of_le hle with rfl | hbelow
    · rw [get_loadBlockHashesCache fun i hi hni => by omega]
      have hself := at?_self (child pprev hash)
      rw [nHeight_child] at hself
      rw [hself]
      exact congrArg some ((v.get_set ..).trans (if_pos rfl)).symm
    · rw [at?_child_of_le (by omega)]
      exact ih (by omega) (by omega) (by omega)

theorem Caches.connectTip (h : v.Caches tip 200) (hash : uint256) :
    (v.cacheBlockHash (child tip hash)).Caches (child tip hash) 200 := by
  intro k hk hlt
  rw [nHeight_child] at hk hlt
  rw [cacheBlockHash, CyclingVector.get_set, nHeight_child]
  rcases Nat.eq_or_lt_of_le hk with rfl | hbelow
  · rw [if_pos rfl, ← nHeight_child tip hash, at?_self]
    rfl
  · rw [if_neg (by omega), at?_child_of_le (by omega)]
    exact h k (by omega) (by omega)

/-- The place that is written is that of the height that is among the last 200 again. -/
theorem Caches.disconnectTip {hash : uint256} (h : v.Caches (child tip hash) 200) :
    (v.disconnectTip (child tip hash)).Caches tip 200 := by
  intro k hk hlt
  have hcached : tip.nHeight + 1 < k + 200 → (tip.at? k).map getBlockHash = some (v.get k) := by
    intro hin
    rw [← at?_child_of_le hk]
    exact h k (by rw [nHeight_child]; omega) (by rw [nHeight_child]; omega)
  unfold BlockHashes.disconnectTip
  rw [nHeight_child]
  split_ifs with hdeep
  · obtain ⟨old, hold⟩ := exists_at? (show tip.nHeight + 1 - 200 ≤ tip.nHeight by omega)
    rw [at?_child_of_le (by omega), hold, Option.map_some, Option.getD_some, cacheBlockHash, CyclingVector.get_set,
      (nHeight_of_at? hold).1]
    by_cases hnew : k = tip.nHeight + 1 - 200
    · rw [if_pos (by rw [hnew]), hnew, hold]
      rfl
    · rw [if_neg (by omega)]
      exact hcached (by omega)
  · rw [uncacheBlockHash, CyclingVector.get_set, nHeight_child, if_neg (by omega)]
    exact hcached (by omega)

theorem Caches.follow (h : v.Caches tip 200) (c : TipChange) :
    (v.follow tip c).Caches (tip.updateTip c) 200 := by
  rcases tip with hash₀ | ⟨pprev, hash₀⟩ <;> rcases c with hash | _
  · exact h.connectTip hash
  · exact h
  · exact h.connectTip hash
  · exact h.disconnectTip

end BlockHashes

/-- **Cached block hashes.** From the hashes that are loaded for a chain on, and after any moves of the tip, the hashes
cached for the last 200 heights are those of the active chain. -/
theorem cached_hashes_right (v : BlockHashes) (tip : CBlockIndex) (changes : List TipChange) :
    (followTip BlockHashes.follow tip (BlockHashes.loadBlockHashesCache 200 tip v) changes).2.Caches
      (changes.foldl updateTip tip) 200 := by
  rw [← fst_followTip]
  refine List.foldlRecOn (motive := fun r : CBlockIndex × BlockHashes => r.2.Caches r.1 200) _ _
    (BlockHashes.caches_loadBlockHashesCache (Nat.le_refl _) v) fun r h c _ => h.follow c

/-! ## The last block of the wallet -/

/-- `m_last_block_processed` with its height and time. -/
structure LastBlock where
  m_last_block_processed : uint256
  m_last_block_processed_height : Int
  m_last_block_processed_time : Int
deriving DecidableEq

namespace LastBlock

/-- The fields after `BlockConnected`, and when the wallet is loaded with the tip `pindex`. -/
def blockConnected (time : CBlockIndex → Int) (pindex : CBlockIndex) : LastBlock :=
  ⟨pindex.getBlockHash, pindex.nHeight, time pindex⟩

def blockDisconnected (blockHash : uint256) (nBlockHeight : Int) (blockTime : Int) : LastBlock :=
  ⟨blockHash, nBlockHeight - 1, blockTime⟩

variable (time : CBlockIndex → Int)

/-- The notice of a move, with the arguments that `DisconnectTip` passes. -/
def follow (w : LastBlock) : CBlockIndex → TipChange → LastBlock
  | tip, .connect hash => blockConnected time (child tip hash)
  | genesis _, .disconnect => w
  | child pprev hash, .disconnect =>
    blockDisconnected (child pprev hash).getBlockHash (child pprev hash).nHeight (time (child pprev hash))

structure Right (w : LastBlock) (tip : CBlockIndex) : Prop where
  height : w.m_last_block_processed_height = tip.nHeight
  block : ∃ pindex, tip.at? w.m_last_block_processed_height.toNat = some pindex ∧
    w.m_last_block_processed = pindex.getBlockHash ∧ w.m_last_block_processed_time = time pindex

/-- The block cannot be told from its parent by its hash and time. -/
def LikeParent : CBlockIndex → Prop
  | genesis _ => True
  | child pprev hash => hash = pprev.getBlockHash ∧ time (child pprev hash) = time pprev

variable {time} {w : LastBlock} {tip : CBlockIndex}

theorem right_iff : w.Right time tip ↔ w = blockConnected time tip := by
  constructor
  · rintro ⟨hheight, pindex, hat, hhash, htime⟩
    rw [hheight, Int.toNat_natCast, at?_self] at hat
    cases hat
    cases w
    simp_all [blockConnected]
  · rintro rfl
    exact ⟨rfl, tip, at?_self tip, rfl, rfl⟩

theorem Right.follow_iff (h : w.Right time tip) (c : TipChange) :
    (w.follow time tip c).Right time (tip.updateTip c) ↔ (c = .disconnect → LikeParent time tip) := by
  rcases tip with hash₀ | ⟨pprev, hash₀⟩ <;> rcases c with hash | _
  · simp [right_iff, follow, updateTip]
  · simp [follow, updateTip, h, LikeParent]
  · simp [right_iff, follow, updateTip]
  · simp [right_iff, follow, updateTip, blockDisconnected, blockConnected, LikeParent]

end LastBlock

/-- **The last block of the wallet**, after each notice of a sequence, is the tip of the chain as notified exactly if
every block that is disconnected is like its parent. -/
theorem last_block_right_iff (time : CBlockIndex → Int) (tip : CBlockIndex) (changes : List TipChange) :
    (∀ pre post, changes = pre ++ post →
      (followTip (LastBlock.follow time) tip (.blockConnected time tip) pre).2.Right time (pre.foldl updateTip tip)) ↔
    ∀ pre post, changes = pre ++ .disconnect :: post → LastBlock.LikeParent time (pre.foldl updateTip tip) := by
  constructor
  · intro h pre post hsplit
    have hafter := h (pre ++ [.disconnect]) post (by rw [hsplit, List.append_assoc]; rfl)
    rw [snd_followTip_concat, List.foldl_append] at hafter
    exact ((h pre _ hsplit).follow_iff .disconnect).mp hafter rfl
  · intro h pre
    induction pre using List.reverseRecOn with
    | nil => exact fun _ _ => LastBlock.right_iff.mpr rfl
    | append_singleton pre c ih =>
      intro post hsplit
      rw [List.append_assoc] at hsplit
      rw [snd_followTip_concat, List.foldl_append]
      refine ((ih _ hsplit).follow_iff c).mpr ?_
      rintro rfl
      exact h pre post hsplit

/-- The wallet is told that a block is disconnected, and keeps its hash. -/
theorem last_block_of_disconnected :
    (followTip (LastBlock.follow fun i => i.nHeight) (child (genesis 1) 2) ⟨2, 1, 1⟩ [.disconnect]) =
      (genesis 1, ⟨2, 0, 1⟩) := by
  decide

end TrumpCoin
