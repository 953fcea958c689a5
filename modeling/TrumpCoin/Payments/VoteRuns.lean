import TrumpCoin.Payments.Votes

/-!
# Votes in any order, and forged votes

* `every_vote_kept_iff`: of the votes that arrive before their item only the last is kept;
* `forged_votes_do_not_count`: a vote with a bad signature can only hide a later vote with the same hash.
-/

namespace TrumpCoin

open Lib

section Book

variable {V : Type} {K : VoteKind V} {D : Type} [Digest D] (k : MessageCrypto) {e : BudgetEnv D} {b : VoteBook K} {v : V}
  {h : uint256}

/-! ## Signed votes -/

/-- The signature of a vote verifies for the node it names. -/
def VoteKind.signed (K : VoteKind V) (nodes : SigningNodes D) (v : V) : Bool :=
  (nodes.keyOf K.signingKey (K.vin v).prevout).any (K.checkSignature k v)

/-- A deterministic node that is not banned, or else an enabled legacy node. -/
def SigningNodes.isEnabled (nodes : SigningNodes D) (o : COutPoint) : Bool :=
  match nodes.mnList.getPNByCollateral o with
  | some dmn => dmn.isPNValid
  | none => (nodes.find o).any LegacyNode.isEnabled

/-- The node handles messages and has finished its syncs. -/
structure BudgetEnv.Synced (e : BudgetEnv D) : Prop where
  fLiteMode : e.fLiteMode = false
  isBlockchainSynced : e.isBlockchainSynced = true
  isSynced : e.isSynced = true

namespace VoteBook

variable {k}

theorem processVote_of_signed (hseen : b.seen[K.getHash k v]? = none) (hsigned : K.signed k e.toSigningNodes v = true)
    (henabled : e.isEnabled (K.vin v).prevout = true) (pfrom : Bool) :
    b.processVote k e pfrom v = (b.addSeen k v).accept k e pfrom v := by
  unfold VoteKind.signed SigningNodes.keyOf at hsigned
  unfold SigningNodes.isEnabled at henabled
  unfold processVote
  rw [hseen, Option.isSome_none, if_neg Bool.false_ne_true]
  cases hdmn : e.mnList.getPNByCollateral (K.vin v).prevout with
  | some dmn =>
    rw [hdmn] at hsigned henabled
    dsimp only at hsigned henabled ⊢
    rw [Option.any_some] at hsigned
    rw [hsigned, henabled, if_neg Bool.true_eq_false_eq_False, if_neg Bool.true_eq_false_eq_False]
  | none =>
    rw [hdmn] at hsigned henabled
    dsimp only at hsigned henabled ⊢
    cases hpmn : e.find (K.vin v).prevout with
    | none =>
      rw [hpmn] at hsigned
      cases hsigned
    | some pmn =>
      rw [hpmn] at hsigned henabled
      rw [Option.map_some, Option.any_some] at hsigned
      rw [Option.any_some] at henabled
      dsimp only
      rw [hsigned, henabled, if_neg Bool.true_eq_false_eq_False, if_neg Bool.true_eq_false_eq_False]

/-- A vote with a bad signature changes at most the votes seen, and those only if it names a legacy node. -/
theorem processVote_of_not_signed (hsigned : K.signed k e.toSigningNodes v = false) (pfrom : Bool) :
    (b.processVote k e pfrom v).2 = b ∨ (b.processVote k e pfrom v).2 = b.addSeen k v ∧
      b.seen[K.getHash k v]? = none ∧ e.mnList.getPNByCollateral (K.vin v).prevout = none ∧
      (e.find (K.vin v).prevout).isSome := by
  unfold VoteKind.signed SigningNodes.keyOf at hsigned
  unfold processVote
  cases hseen : b.seen[K.getHash k v]? with
  | some w => exact .inl rfl
  | none =>
    rw [Option.isSome_none, if_neg Bool.false_ne_true]
    cases hdmn : e.mnList.getPNByCollateral (K.vin v).prevout with
    | some dmn =>
      rw [hdmn] at hsigned
      dsimp only at hsigned ⊢
      rw [Option.any_some] at hsigned
      rw [if_pos hsigned]
      exact .inl rfl
    | none =>
      rw [hdmn] at hsigned
      cases hpmn : e.find (K.vin v).prevout with
      | none => exact .inl rfl
      | some pmn =>
        rw [hpmn, Option.map_some, Option.any_some] at hsigned
        dsimp only
        rw [if_pos hsigned]
        exact .inr ⟨rfl, rfl, rfl, rfl⟩

variable {mapVotes : FinMap COutPoint V}

theorem addOrUpdateVote_of_new (hnew : mapVotes[(K.vin v).prevout]? = none)
    (htime : K.getTime v ≤ e.getTime + 60 * 60) :
    addOrUpdateVote (K := K) k e mapVotes v = .ok (mapVotes.insert (K.vin v).prevout v) := by
  unfold addOrUpdateVote
  dsimp only
  rw [hnew, require, if_pos (Int64.not_lt.mpr htime)]
  rfl

/-! ## Votes before their item -/

theorem processVote_of_known (hseen : b.seen[K.getHash k v]? = none) (hsigned : K.signed k e.toSigningNodes v = true)
    (henabled : e.isEnabled (K.vin v).prevout = true)
    (hitem : b.items[K.target v]? = some mapVotes) (hnew : mapVotes[(K.vin v).prevout]? = none)
    (htime : K.getTime v ≤ e.getTime + 60 * 60) : (b.processVote k e true v).2 =
      { b.addSeen k v with items := b.items.insert (K.target v) (mapVotes.insert (K.vin v).prevout v) } := by
  rw [processVote_of_signed hseen hsigned henabled, accept, update]
  dsimp only [addSeen]
  rw [hitem]
  dsimp only
  rw [addOrUpdateVote_of_new hnew htime]

theorem addSeen_seen_ne {hash : uint256} (hne : hash ≠ K.getHash k v) : (b.addSeen k v).seen[hash]? = b.seen[hash]? := by
  ext w
  exact FinMap.get_emplace.trans (or_iff_left fun h => hne h.2.1)

def deliver (b : VoteBook K) (votes : List (BudgetEnv D × V)) : VoteBook K :=
  votes.foldl (fun b x => (b.processVote k x.1 true x.2).2) b

/-- Votes of distinct hashes, not seen yet, with good signatures of enabled nodes, for one item, at a synced node. -/
structure Timely (b : VoteBook K) (h : uint256) (votes : List (BudgetEnv D × V)) : Prop where
  unseen : ∀ x ∈ votes, b.seen[K.getHash k x.2]? = none
  hashes : (votes.map fun x => K.getHash k x.2).Nodup
  target : ∀ x ∈ votes, K.target x.2 = h
  signed : ∀ x ∈ votes, K.signed k x.1.toSigningNodes x.2 = true
  enabled : ∀ x ∈ votes, x.1.isEnabled (K.vin x.2).prevout = true
  synced : ∀ x ∈ votes, x.1.Synced

variable {votes : List (BudgetEnv D × V)}

theorem Timely.tail {x : BudgetEnv D × V} {b' : VoteBook K}
    (ht : Timely (k := k) b h (x :: votes)) (hseen : b'.seen = (b.addSeen k x.2).seen) : Timely (k := k) b' h votes where
  unseen y hy := by
    have hne : K.getHash k y.2 ≠ K.getHash k x.2 := by
      have hnodup := ht.hashes
      rw [List.map_cons, List.nodup_cons] at hnodup
      rintro heq
      exact hnodup.1 (List.mem_map.mpr ⟨y, hy, heq⟩)
    rw [hseen, addSeen_seen_ne hne]
    exact ht.unseen y (List.mem_cons_of_mem x hy)
  hashes := by
    have hnodup := ht.hashes
    rw [List.map_cons, List.nodup_cons] at hnodup
    exact hnodup.2
  target y hy := ht.target y (List.mem_cons_of_mem x hy)
  signed y hy := ht.signed y (List.mem_cons_of_mem x hy)
  enabled y hy := ht.enabled y (List.mem_cons_of_mem x hy)
  synced y hy := ht.synced y (List.mem_cons_of_mem x hy)

/-- Of the votes that arrive before their item only the last one waits. -/
theorem deliver_before {rest : List (BudgetEnv D × V)} (hitem : b.items[h]? = none)
    (ht : Timely (k := k) b h (votes ++ rest)) : (deliver (k := k) b votes).items = b.items ∧
      (deliver (k := k) b votes).orphans[h]? = (votes.getLast?.map Prod.snd).or b.orphans[h]? ∧
      Timely (k := k) (deliver (k := k) b votes) h rest := by
  induction votes generalizing b with
  | nil => exact ⟨rfl, rfl, ht⟩
  | cons x votes ih =>
    have hx : x ∈ x :: votes ++ rest := List.mem_cons_self
    -- a vote for an unknown item waits, in the place of the one that waited for that item before
    have hstep : (b.processVote k x.1 true x.2).2 = (b.addSeen k x.2).addOrphan x.2 := by
      rw [processVote_of_signed (ht.unseen x hx) (ht.signed x hx) (ht.enabled x hx), accept, update]
      dsimp only [addSeen]
      rw [ht.target x hx, hitem, if_pos rfl, if_pos (ht.synced x hx).isSynced]
    have hdeliver : deliver (k := k) b (x :: votes) = deliver (k := k) ((b.addSeen k x.2).addOrphan x.2) votes := by
      rw [deliver, List.foldl_cons, hstep]
      rfl
    obtain ⟨hitems, horphan, hrest⟩ := ih (b := (b.addSeen k x.2).addOrphan x.2) hitem (ht.tail rfl)
    rw [hdeliver]
    refine ⟨hitems, ?_, hrest⟩
    have hself : ((b.addSeen k x.2).addOrphan x.2).orphans[h]? = some x.2 := by
      show (b.orphans.insert (K.target x.2) x.2)[h]? = some x.2
      rw [ht.target x hx, FinMap.get_insert_self]
    rw [horphan, hself, List.getLast?_cons]
    cases votes.getLast? with
    | none => rfl
    | some y => rfl

/-! ## The waiting vote -/

variable {p : uint256 × V}

theorem checkOrphanVote_frame : (checkOrphanVote k e b p).seen = b.seen ∧
    ∀ h, K.target p.2 ≠ h → (checkOrphanVote k e b p).items[h]? = b.items[h]? := by
  unfold checkOrphanVote update
  cases hitem : b.items[K.target p.2]? with
  | none => exact ⟨rfl, fun _ _ => rfl⟩
  | some mapVotes =>
    dsimp only
    cases addOrUpdateVote (K := K) k e mapVotes p.2 with
    | ok m => exact ⟨rfl, fun _ hne => FinMap.get_insert_ne _ _ hne⟩
    | error strError => exact ⟨rfl, fun _ _ => rfl⟩

theorem checkOrphanVote_items_self {m m' : FinMap COutPoint V} (hitem : b.items[K.target p.2]? = some m)
    (hadd : addOrUpdateVote (K := K) k e m p.2 = .ok m') :
    (checkOrphanVote k e b p).items[K.target p.2]? = some m' := by
  unfold checkOrphanVote update
  rw [hitem]
  dsimp only
  rw [hadd]
  exact FinMap.get_insert_self _ _ _

theorem foldl_checkOrphanVote_seen (l : List (uint256 × V)) : (l.foldl (checkOrphanVote k e) b).seen = b.seen := by
  induction l generalizing b with
  | nil => rfl
  | cons p l ih => rw [List.foldl_cons, ih, checkOrphanVote_frame.1]

theorem foldl_checkOrphanVote_ne {l : List (uint256 × V)} (hne : ∀ p ∈ l, K.target p.2 ≠ h) :
    (l.foldl (checkOrphanVote k e) b).items[h]? = b.items[h]? := by
  induction l generalizing b with
  | nil => rfl
  | cons p l ih =>
    rw [List.foldl_cons, ih fun q hq => hne q (List.mem_cons_of_mem p hq),
      checkOrphanVote_frame.2 h (hne p List.mem_cons_self)]

/-- The votes on a new item, with the vote that waits for it. -/
def startVotes (waiting : Option V) : FinMap COutPoint V :=
  waiting.elim ∅ fun v => (∅ : FinMap COutPoint V).insert (K.vin v).prevout v

theorem startVotes_get_of_ne {waiting : Option V} {o : COutPoint} (hne : ∀ v, waiting = some v → (K.vin v).prevout ≠ o) :
    (startVotes (K := K) waiting)[o]? = none := by
  cases waiting with
  | none => exact FinMap.get_empty o
  | some v => exact (FinMap.get_insert_ne _ _ (hne v rfl)).trans (FinMap.get_empty o)

theorem checkOrphanVotes_items (hitem : b.items[h]? = some ∅)
    (htime : ∀ v, b.orphans[h]? = some v → K.getTime v ≤ e.getTime + 60 * 60) :
    (b.checkOrphanVotes k e).items[h]? = some (startVotes (K := K) b.orphans[h]?) := by
  unfold checkOrphanVotes
  have htarget : ∀ p ∈ b.orphans.toList, K.target p.2 = p.1 := fun p hp =>
    b.keyed p.1 p.2 (FinMap.mem_toList.mp hp)
  cases horphan : b.orphans[h]? with
  | none =>
    rw [foldl_checkOrphanVote_ne fun p hp heq => ?_]
    · exact hitem
    · have hmem := FinMap.mem_toList.mp hp
      rw [← htarget p hp, heq, horphan] at hmem
      cases hmem
  | some v =>
    obtain ⟨pre, post, hsplit⟩ := List.append_of_mem (FinMap.mem_toList.mpr horphan)
    have hkeys := FinMap.nodup_keys b.orphans
    rw [hsplit, List.map_append, List.map_cons, List.nodup_append, List.nodup_cons] at hkeys
    obtain ⟨-, ⟨hpost, -⟩, hpre⟩ := hkeys
    rw [hsplit] at htarget ⊢
    have hv : K.target v = h := htarget (h, v) (by simp)
    rw [List.foldl_append, List.foldl_cons, foldl_checkOrphanVote_ne fun p hp heq => ?_]
    · have hitem' : (pre.foldl (checkOrphanVote k e) b).items[K.target v]? = some ∅ := by
        rw [foldl_checkOrphanVote_ne fun p hp heq => ?_, hv]
        · exact hitem
        · rw [htarget p (List.mem_append_left _ hp), hv] at heq
          exact hpre p.1 (List.mem_map_of_mem hp) h List.mem_cons_self heq
      have hself := checkOrphanVote_items_self (k := k) (p := (h, v)) hitem'
        (addOrUpdateVote_of_new (FinMap.get_empty _) (htime v horphan))
      rw [hv] at hself
      exact hself
    · rw [htarget p (List.mem_append_right _ (List.mem_cons_of_mem _ hp))] at heq
      exact hpost (List.mem_map.mpr ⟨p, hp, heq⟩)

/-! ## Votes after their item -/

theorem deliver_after {m : FinMap COutPoint V} (hitem : b.items[h]? = some m)
    (ht : Timely (k := k) b h votes) (hnodes : (votes.map fun x => (K.vin x.2).prevout).Nodup)
    (hnew : ∀ x ∈ votes, m[(K.vin x.2).prevout]? = none)
    (htime : ∀ x ∈ votes, K.getTime x.2 ≤ x.1.getTime + 60 * 60) :
    ∃ m' : FinMap COutPoint V, (deliver (k := k) b votes).items[h]? = some m' ∧
      (∀ x ∈ votes, m'[(K.vin x.2).prevout]? = some x.2) ∧
      ∀ o, o ∉ votes.map (fun x => (K.vin x.2).prevout) → m'[o]? = m[o]? := by
  induction votes generalizing b m with
  | nil => exact ⟨m, hitem, by simp, fun _ _ => rfl⟩
  | cons x votes ih =>
    have hx : x ∈ x :: votes := List.mem_cons_self
    have htarget := ht.target x hx
    have hstep := processVote_of_known (ht.unseen x hx) (ht.signed x hx) (ht.enabled x hx) (by rw [htarget]; exact hitem)
      (hnew x hx) (htime x hx)
    rw [htarget] at hstep
    rw [List.map_cons, List.nodup_cons] at hnodes
    have hne : ∀ y ∈ votes, (K.vin x.2).prevout ≠ (K.vin y.2).prevout := by
      intro y hy heq
      exact hnodes.1 (List.mem_map.mpr ⟨y, hy, heq.symm⟩)
    obtain ⟨m', hget, hmem, hrest⟩ := ih (b := { b.addSeen k x.2 with
        items := b.items.insert h (m.insert (K.vin x.2).prevout x.2) }) (FinMap.get_insert_self _ _ _) (ht.tail rfl)
      hnodes.2
      (fun y hy => by rw [FinMap.get_insert_ne _ _ (hne y hy)]; exact hnew y (List.mem_cons_of_mem x hy))
      fun y hy => htime y (List.mem_cons_of_mem x hy)
    refine ⟨m', ?_, fun y hy => ?_, fun o ho => ?_⟩
    · rw [deliver, List.foldl_cons, hstep]
      exact hget
    · rcases List.mem_cons.mp hy with rfl | hy
      · rw [hrest _ hnodes.1, FinMap.get_insert_self]
      · exact hmem y hy
    · rw [List.map_cons, List.mem_cons, not_or] at ho
      rw [hrest o ho.2, FinMap.get_insert_ne _ _ (Ne.symm ho.1)]

/-! ## Any order -/

/-- A new item arrives in the environment `e` after the votes `before` and before the votes `after`. The votes are of
distinct nodes and not dated ahead when they are counted. -/
structure Arrival (b : VoteBook K) (h : uint256) (before : List (BudgetEnv D × V)) (e : BudgetEnv D)
    (after : List (BudgetEnv D × V)) : Prop where
  unknown : b.items[h]? = none
  unasked : b.orphans[h]? = none
  timely : Timely (k := k) b h (before ++ after)
  synced : e.Synced
  nodes : ((before ++ after).map fun x => (K.vin x.2).prevout).Nodup
  early : ∀ x ∈ before, K.getTime x.2 ≤ e.getTime + 60 * 60
  late : ∀ x ∈ after, K.getTime x.2 ≤ x.1.getTime + 60 * 60

def HasVote (b : VoteBook K) (v : V) : Prop :=
  ∃ mapVotes : FinMap COutPoint V, b.items[K.target v]? = some mapVotes ∧ mapVotes[(K.vin v).prevout]? = some v

/-- The book after the votes and the item. -/
def receive (b : VoteBook K) (h : uint256) (before : List (BudgetEnv D × V)) (e : BudgetEnv D)
    (after : List (BudgetEnv D × V)) : VoteBook K :=
  deliver (k := k) (((deliver (k := k) b before).addItem h).checkOrphanVotes k e) after

section Arrival

variable {before after : List (BudgetEnv D × V)} (ha : Arrival (k := k) b h before e after)

include ha

/-- What is counted in the end: the last vote before the item, and all votes after it. -/
theorem Arrival.counted : ∃ m : FinMap COutPoint V, (receive (k := k) b h before e after).items[h]? = some m ∧
    (∀ x ∈ after, m[(K.vin x.2).prevout]? = some x.2) ∧
    ∀ x ∈ before, m[(K.vin x.2).prevout]? =
      (startVotes (K := K) (before.getLast?.map Prod.snd))[(K.vin x.2).prevout]? := by
  obtain ⟨hitems, horphan, hrest⟩ := deliver_before ha.unknown ha.timely
  rw [ha.unasked, Option.or_none] at horphan
  change ((deliver (k := k) b before).addItem h).orphans[h]? = _ at horphan
  have hnodes := ha.nodes
  rw [List.map_append, List.nodup_append] at hnodes
  -- the item with the vote that waited
  have hempty : ((deliver (k := k) b before).addItem h).items[h]? = some ∅ := by
    refine FinMap.get_emplace.mpr (.inr ⟨?_, rfl, rfl⟩)
    rw [hitems]
    exact ha.unknown
  have hwaiting := checkOrphanVotes_items (k := k) (e := e) hempty fun v hv => by
    rw [horphan] at hv
    obtain ⟨x, hx, rfl⟩ := Option.map_eq_some_iff.mp hv
    exact ha.early x (List.mem_of_getLast? hx)
  rw [horphan] at hwaiting
  have hseen : (((deliver (k := k) b before).addItem h).checkOrphanVotes k e).seen = (deliver (k := k) b before).seen :=
    foldl_checkOrphanVote_seen _
  have hother : ∀ x ∈ after,
      (startVotes (K := K) (before.getLast?.map Prod.snd))[(K.vin x.2).prevout]? = none := by
    intro x hx
    refine startVotes_get_of_ne fun v hv heq => ?_
    obtain ⟨y, hlast, rfl⟩ := Option.map_eq_some_iff.mp hv
    exact hnodes.2.2 _ (List.mem_map.mpr ⟨y, List.mem_of_getLast? hlast, rfl⟩) _ (List.mem_map.mpr ⟨x, hx, rfl⟩) heq
  obtain ⟨m, hget, hmem, hkeep⟩ := deliver_after hwaiting
    ⟨fun x hx => by rw [hseen]; exact hrest.unseen x hx, hrest.hashes, hrest.target, hrest.signed, hrest.enabled,
      hrest.synced⟩ hnodes.2.1 hother ha.late
  refine ⟨m, hget, hmem, fun x hx => hkeep _ fun hin => ?_⟩
  obtain ⟨y, hy, heq⟩ := List.mem_map.mp hin
  exact hnodes.2.2 _ (List.mem_map.mpr ⟨x, hx, rfl⟩) _ (List.mem_map.mpr ⟨y, hy, rfl⟩) heq.symm

theorem Arrival.hasVote_iff :
    (∀ x ∈ before ++ after, (receive (k := k) b h before e after).HasVote x.2) ↔ before.length ≤ 1 := by
  obtain ⟨m, hget, hafter, hbefore⟩ := ha.counted
  have hhas : ∀ x ∈ before ++ after, (receive (k := k) b h before e after).HasVote x.2 ↔
      m[(K.vin x.2).prevout]? = some x.2 := by
    intro x hx
    unfold HasVote
    rw [ha.timely.target x hx, hget]
    simp
  have hnodes := ha.nodes
  rw [List.map_append, List.nodup_append] at hnodes
  constructor
  · intro hall
    rcases before with _ | ⟨x, _ | ⟨y, rest⟩⟩
    · exact Nat.zero_le 1
    · exact Nat.le_refl 1
    · -- the first vote was replaced by a later one of another node
      have hx := (hhas x (by simp)).mp (hall x (by simp))
      rw [hbefore x (by simp), List.getLast?_cons_cons, startVotes_get_of_ne fun v hv heq => ?_] at hx
      · cases hx
      · obtain ⟨z, hz, rfl⟩ := Option.map_eq_some_iff.mp hv
        have hnodup := hnodes.1
        rw [List.map_cons, List.nodup_cons] at hnodup
        exact hnodup.1 (List.mem_map.mpr ⟨z, List.mem_of_getLast? hz, heq⟩)
  · intro hlen x hx
    rw [hhas x hx]
    rcases List.mem_append.mp hx with hx | hx
    · rw [hbefore x hx]
      obtain ⟨y, rfl⟩ := List.length_eq_one_iff.mp (Nat.le_antisymm hlen (List.length_pos_of_mem hx))
      rw [List.mem_singleton.mp hx]
      exact FinMap.get_insert_self _ _ _
    · exact hafter x hx

end Arrival

/-! ## Books that differ in the votes seen -/

/-- The same votes are accepted and waiting, and of the hashes in `H` the same were seen. -/
structure Agree (H : uint256 → Prop) (b b' : VoteBook K) : Prop where
  items : b.items = b'.items
  orphans : b.orphans = b'.orphans
  seen : ∀ hash, H hash → b.seen[hash]?.isSome = b'.seen[hash]?.isSome

namespace Agree

variable {H H' : uint256 → Prop} {b' : VoteBook K}

variable (ha : Agree H b b')
include ha

theorem mono (hle : ∀ hash, H' hash → H hash) : Agree H' b b' :=
  ⟨ha.items, ha.orphans, fun hash hh => ha.seen hash (hle hash hh)⟩

theorem addItem (h : uint256) : Agree H (b.addItem h) (b'.addItem h) :=
  ⟨by rw [VoteBook.addItem, VoteBook.addItem, ha.items], ha.orphans, ha.seen⟩

/-- What is done with a vote for its item does not depend on the votes seen. -/
theorem update (pfrom : Bool) (v : V) : ∃ r c c', b.update k e pfrom v = (r, c) ∧ b'.update k e pfrom v = (r, c') ∧
    Agree H c c' := by
  unfold VoteBook.update
  rw [ha.items]
  cases b'.items[K.target v]? with
  | none =>
    cases pfrom with
    | false => exact ⟨_, _, _, rfl, rfl, ha⟩
    | true =>
      cases e.isSynced with
      | true =>
        refine ⟨_, _, _, rfl, rfl, ha.items, ?_, ha.seen⟩
        show b.orphans.insert _ _ = b'.orphans.insert _ _
        rw [ha.orphans]
      | false => exact ⟨_, _, _, rfl, rfl, ha⟩
  | some mapVotes =>
    dsimp only
    cases addOrUpdateVote (K := K) k e mapVotes v with
    | ok m => exact ⟨_, _, _, rfl, rfl, rfl, ha.orphans, ha.seen⟩
    | error strError => exact ⟨_, _, _, rfl, rfl, ha⟩

theorem checkOrphanVote (p : uint256 × V) : Agree H (checkOrphanVote k e b p) (checkOrphanVote k e b' p) := by
  obtain ⟨r, c, c', hu, hu', hbook⟩ := ha.update (k := k) (e := e) false p.2
  unfold VoteBook.checkOrphanVote
  rw [hu, hu']
  cases r with
  | ok _ =>
    refine ⟨hbook.items, ?_, hbook.seen⟩
    show c.orphans.erase _ = c'.orphans.erase _
    rw [hbook.orphans]
  | error _ => exact hbook

theorem foldl_checkOrphanVote (l : List (uint256 × V)) :
    Agree H (l.foldl (VoteBook.checkOrphanVote k e) b) (l.foldl (VoteBook.checkOrphanVote k e) b') := by
  induction l generalizing b b' with
  | nil => exact ha
  | cons p l ih => exact ih (ha.checkOrphanVote p)

theorem checkOrphanVotes : Agree H (b.checkOrphanVotes k e) (b'.checkOrphanVotes k e) := by
  unfold VoteBook.checkOrphanVotes
  rw [ha.orphans]
  exact ha.foldl_checkOrphanVote _

theorem addSeen (v : V) : Agree H (b.addSeen k v) (b'.addSeen k v) := by
  refine ⟨ha.items, ha.orphans, fun hash hh => ?_⟩
  rw [VoteBook.addSeen, VoteBook.addSeen, FinMap.isSome_emplace, FinMap.isSome_emplace, ha.seen hash hh]

theorem accept (pfrom : Bool) (v : V) : Agree H (b.accept k e pfrom v).2 (b'.accept k e pfrom v).2 := by
  obtain ⟨r, c, c', hu, hu', hbook⟩ := ha.update (k := k) (e := e) pfrom v
  unfold VoteBook.accept
  rw [hu, hu']
  cases r with
  | ok _ => exact hbook
  | error _ => exact hbook

theorem processVote (v : V) (hv : H (K.getHash k v)) :
    Agree H (b.processVote k e true v).2 (b'.processVote k e true v).2 := by
  unfold VoteBook.processVote
  rw [ha.seen _ hv]
  split
  · exact ha
  · split
    · split
      · exact ha
      · split
        · exact ha.addSeen v
        · exact (ha.addSeen v).accept true v
    · split
      · exact ha
      · split
        · exact ha.addSeen v
        · split
          · exact ha.addSeen v
          · exact (ha.addSeen v).accept true v

theorem processVote_left (hsigned : K.signed k e.toSigningNodes v = false)
    (hv : b.seen[K.getHash k v]? = none → e.mnList.getPNByCollateral (K.vin v).prevout = none →
      (e.find (K.vin v).prevout).isSome → ¬H (K.getHash k v)) :
    Agree H (b.processVote k e true v).2 b' := by
  rcases processVote_of_not_signed (b := b) hsigned true with hres | ⟨hres, hunseen, hdmn, hlegacy⟩
  · rw [hres]
    exact ha
  · rw [hres]
    refine ⟨ha.items, ha.orphans, fun hash hh => ?_⟩
    have hne : hash ≠ K.getHash k v := by
      rintro rfl
      exact hv hunseen hdmn hlegacy hh
    rw [addSeen_seen_ne hne]
    exact ha.seen hash hh

end Agree

end VoteBook

end Book

/-! ## The manager -/

namespace CBudgetManager

variable {D : Type} [Digest D] (k : MessageCrypto)

theorem run_append (s : CBudgetManager) (msgs msgs' : List (BudgetEnv D × BudgetMessage)) :
    s.run k (msgs ++ msgs') = (s.run k msgs).run k msgs' := List.foldl_append

theorem run_cons (s : CBudgetManager) (x : BudgetEnv D × BudgetMessage) (msgs : List (BudgetEnv D × BudgetMessage)) :
    s.run k (x :: msgs) = (s.processMessageInner k x.1 x.2).2.run k msgs := rfl

/-! One of the two books, with the messages for it. -/

section Book

variable {k} {V : Type} {K : VoteKind V} (book : CBudgetManager → VoteBook K) {vote : V → BudgetMessage}
  (hvote : ∀ (s : CBudgetManager) (e : BudgetEnv D) (v : V), e.Synced →
    book (s.processMessageInner k e (vote v)).2 = ((book s).processVote k e true v).2)
include hvote

theorem book_run_votes {votes : List (BudgetEnv D × V)} (hsynced : ∀ x ∈ votes, x.1.Synced) (s : CBudgetManager) :
    book (s.run k (votes.map fun x => (x.1, vote x.2))) = VoteBook.deliver (k := k) (book s) votes := by
  induction votes generalizing s with
  | nil => rfl
  | cons x votes ih =>
    rw [List.forall_mem_cons] at hsynced
    rw [List.map_cons, run_cons, ih hsynced.2, hvote s x.1 x.2 hsynced.1]
    rfl

theorem hasVote_run_iff {s : CBudgetManager} {h : uint256} {e : BudgetEnv D} {item : BudgetMessage}
    (hitem : ∀ s : CBudgetManager, (book s).items[h]? = none →
      book (s.processMessageInner k e item).2 = ((book s).addItem h).checkOrphanVotes k e)
    {before after : List (BudgetEnv D × V)} (ha : VoteBook.Arrival (k := k) (book s) h before e after) :
    (∀ x ∈ before ++ after, (book (s.run k (before.map (fun x => (x.1, vote x.2)) ++
      (e, item) :: after.map fun x => (x.1, vote x.2)))).HasVote x.2) ↔ before.length ≤ 1 := by
  have hsynced := ha.timely.synced
  rw [List.forall_mem_append] at hsynced
  have hbefore := book_run_votes book hvote hsynced.1 s
  have hnew : (VoteBook.deliver (k := k) (book s) before).items[h]? = none := by
    rw [(VoteBook.deliver_before ha.unknown ha.timely).1]
    exact ha.unknown
  rw [run_append, run_cons, book_run_votes book hvote hsynced.2, hitem _ (by rw [hbefore, hnew]), hbefore]
  exact ha.hasVote_iff

end Book

/-- **Votes in any order.** Where votes of distinct enabled nodes and their new item reach a synced node, all votes are
counted exactly in the orders in which at most one vote comes before the item. -/
theorem every_vote_kept_iff (s : CBudgetManager) (h : uint256) (e : BudgetEnv D) :
    (∀ before after : List (BudgetEnv D × CBudgetVote), e.addProposal h = true →
      VoteBook.Arrival (k := k) s.proposals h before e after →
      ((∀ x ∈ before ++ after, (s.run k (before.map (fun x => (x.1, .BUDGETVOTE x.2)) ++
          (e, .BUDGETPROPOSAL h) :: after.map fun x => (x.1, .BUDGETVOTE x.2))).proposals.HasVote x.2) ↔
        before.length ≤ 1)) ∧
    ∀ before after : List (BudgetEnv D × CFinalizedBudgetVote), e.addFinalizedBudget h = true →
      VoteBook.Arrival (k := k) s.budgets h before e after →
      ((∀ x ∈ before ++ after, (s.run k (before.map (fun x => (x.1, .FINALBUDGETVOTE x.2)) ++
          (e, .FINALBUDGET h) :: after.map fun x => (x.1, .FINALBUDGETVOTE x.2))).budgets.HasVote x.2) ↔
        before.length ≤ 1) := by
  constructor
  · intro before after hadd ha
    refine hasVote_run_iff proposals (fun s e v hs => ?_) (fun s hnew => ?_) ha
    · rw [processMessageInner, hs.fLiteMode, hs.isBlockchainSynced]
      rfl
    · rw [processMessageInner, ha.synced.fLiteMode, ha.synced.isBlockchainSynced]
      rw [processProposal, hnew, hadd]
      rfl
  · intro before after hadd ha
    refine hasVote_run_iff budgets (fun s e v hs => ?_) (fun s hnew => ?_) ha
    · rw [processMessageInner, hs.fLiteMode, hs.isBlockchainSynced]
      rfl
    · rw [processMessageInner, ha.synced.fLiteMode, ha.synced.isBlockchainSynced]
      rw [processFinalizedBudget, hnew, hadd]
      rfl

end CBudgetManager

namespace Sample

/-- A synced node that knows every outpoint as an enabled legacy node. -/
def budgetEnv : BudgetEnv Bytes := { find := fun _ => some ⟨0x51, true⟩, getTime := 1000 }

def budgetVote (n : uint256) (vchSig : Bytes) : CBudgetVote :=
  { vchSig := vchSig, nProposalHash := 9, nVote := 1, nTime := 1000, vin := { prevout := ⟨n, 0⟩ } }

theorem arrival_of_two (before after : List (BudgetEnv Bytes × CBudgetVote))
    (h : before ++ after = [(budgetEnv, budgetVote 1 [1]), (budgetEnv, budgetVote 2 [1])]) :
    VoteBook.Arrival (k := messageCrypto) ({} : CBudgetManager).proposals 9 before budgetEnv after := by
  have henv : ∀ x ∈ before ++ after, x.1 = budgetEnv ∧ x.2.nTime = 1000 := by
    rw [h]
    simp [budgetVote]
  have hseen : ∀ hash : uint256, ({} : CBudgetManager).proposals.seen[hash]? = none := FinMap.get_empty
  refine ⟨FinMap.get_empty _, FinMap.get_empty _, ⟨fun x _ => hseen _, ?_, ?_, ?_, ?_, ?_⟩, ⟨rfl, rfl, rfl⟩, ?_, ?_, ?_⟩
  · rw [h]
    decide +kernel
  · rw [h]
    simp [budgetVote, proposalVotes]
  · rw [h]
    decide +kernel
  · rw [h]
    decide +kernel
  · intro x hx
    rw [(henv x hx).1]
    exact ⟨rfl, rfl, rfl⟩
  · rw [h]
    decide +kernel
  · intro x hx
    rw [show proposalVotes.getTime x.2 = 1000 from (henv x (List.mem_append_left _ hx)).2]
    decide
  · intro x hx
    rw [show proposalVotes.getTime x.2 = 1000 from (henv x (List.mem_append_right _ hx)).2,
      (henv x (List.mem_append_right _ hx)).1]
    decide

def voteMessage (x : BudgetEnv Bytes × CBudgetVote) : BudgetEnv Bytes × BudgetMessage := (x.1, .BUDGETVOTE x.2)

end Sample

open Sample

/-- One vote before the proposal and one after it: both are counted. -/
theorem every_vote_kept_sample :
    (CBudgetManager.run messageCrypto {} [voteMessage (budgetEnv, budgetVote 1 [1]),
      (budgetEnv, .BUDGETPROPOSAL 9), voteMessage (budgetEnv, budgetVote 2 [1])]
      ).proposals.HasVote (budgetVote 1 [1]) ∧
    (CBudgetManager.run messageCrypto {} [voteMessage (budgetEnv, budgetVote 1 [1]),
      (budgetEnv, .BUDGETPROPOSAL 9), voteMessage (budgetEnv, budgetVote 2 [1])]
      ).proposals.HasVote (budgetVote 2 [1]) := by
  have hall := ((CBudgetManager.every_vote_kept_iff messageCrypto {} 9 budgetEnv).1
    [(budgetEnv, budgetVote 1 [1])] [(budgetEnv, budgetVote 2 [1])] rfl
    (arrival_of_two _ _ rfl)).mpr (Nat.le_refl 1)
  exact ⟨hall (budgetEnv, budgetVote 1 [1]) (by simp), hall (budgetEnv, budgetVote 2 [1]) (by simp)⟩

/-- Both votes before the proposal: the first is lost. -/
theorem early_vote_lost :
    VoteBook.Arrival (k := messageCrypto) ({} : CBudgetManager).proposals 9
      [(budgetEnv, budgetVote 1 [1]), (budgetEnv, budgetVote 2 [1])] budgetEnv [] ∧
    ¬(CBudgetManager.run messageCrypto {} [voteMessage (budgetEnv, budgetVote 1 [1]),
      voteMessage (budgetEnv, budgetVote 2 [1]), (budgetEnv, .BUDGETPROPOSAL 9)]
      ).proposals.HasVote (budgetVote 1 [1]) := by
  refine ⟨arrival_of_two _ _ rfl, ?_⟩
  rintro ⟨mapVotes, hitem, hvote⟩
  have hlost : ((CBudgetManager.run messageCrypto {} [voteMessage (budgetEnv, budgetVote 1 [1]),
      voteMessage (budgetEnv, budgetVote 2 [1]), (budgetEnv, .BUDGETPROPOSAL 9)]
      ).proposals.items[(9 : uint256)]?).bind (fun mapVotes => mapVotes[(⟨1, 0⟩ : COutPoint)]?) = none := by
    decide +kernel
  rw [show (CBudgetManager.run messageCrypto {} _).proposals.items[(9 : uint256)]? = some mapVotes from hitem,
    Option.bind_some, show mapVotes[(⟨1, 0⟩ : COutPoint)]? = _ from hvote] at hlost
  cases hlost

/-! ## Forged votes -/

section Forged

variable {D : Type} [Digest D] (k : MessageCrypto)

/-- The signature of a vote verifies for the node it names; items are not signed. -/
def BudgetMessage.signed (nodes : SigningNodes D) : BudgetMessage → Bool
  | .BUDGETVOTE vote => proposalVotes.signed k nodes vote
  | .FINALBUDGETVOTE vote => finalizedBudgetVotes.signed k nodes vote
  | _ => true

variable (msgs : List (BudgetEnv D × BudgetMessage))

def signedOnly : List (BudgetEnv D × BudgetMessage) :=
  msgs.filter fun x => x.2.signed k x.1.toSigningNodes

/-- A vote with a good signature and the given hash is among the messages. -/
def ProposalVoteIn (hash : uint256) : Prop :=
  ∃ e vote, (e, .BUDGETVOTE vote) ∈ msgs ∧ proposalVotes.signed k e.toSigningNodes vote = true ∧
    proposalVotes.getHash k vote = hash

@[inherit_doc ProposalVoteIn]
def FinalizedBudgetVoteIn (hash : uint256) : Prop :=
  ∃ e vote, (e, .FINALBUDGETVOTE vote) ∈ msgs ∧ finalizedBudgetVotes.signed k e.toSigningNodes vote = true ∧
    finalizedBudgetVotes.getHash k vote = hash

/-- A vote with a bad signature that names a legacy node and was not seen yet has another hash than every vote with a
good signature after it. -/
structure Unshadowed (s : CBudgetManager) (msgs : List (BudgetEnv D × BudgetMessage)) : Prop where
  proposals : ∀ pre e vote post, msgs = pre ++ (e, .BUDGETVOTE vote) :: post →
    proposalVotes.signed k e.toSigningNodes vote = false →
    (s.run k pre).proposals.seen[proposalVotes.getHash k vote]? = none →
    e.mnList.getPNByCollateral vote.vin.prevout = none → (e.find vote.vin.prevout).isSome →
    ¬ProposalVoteIn k post (proposalVotes.getHash k vote)
  budgets : ∀ pre e vote post, msgs = pre ++ (e, .FINALBUDGETVOTE vote) :: post →
    finalizedBudgetVotes.signed k e.toSigningNodes vote = false →
    (s.run k pre).budgets.seen[finalizedBudgetVotes.getHash k vote]? = none →
    e.mnList.getPNByCollateral vote.vin.prevout = none → (e.find vote.vin.prevout).isSome →
    ¬FinalizedBudgetVoteIn k post (finalizedBudgetVotes.getHash k vote)

variable {k} {s t : CBudgetManager} {e : BudgetEnv D} {msgs : List (BudgetEnv D × BudgetMessage)}
  {x : BudgetEnv D × BudgetMessage}

theorem Unshadowed.tail (h : Unshadowed k s (x :: msgs)) : Unshadowed k (s.processMessageInner k x.1 x.2).2 msgs where
  proposals pre e vote post hsplit := h.proposals (x :: pre) e vote post (by rw [hsplit]; rfl)
  budgets pre e vote post hsplit := h.budgets (x :: pre) e vote post (by rw [hsplit]; rfl)

namespace CBudgetManager

/-- The managers agree on everything but seen votes that do not matter for the messages. -/
structure Agree (k : MessageCrypto) (msgs : List (BudgetEnv D × BudgetMessage)) (s t : CBudgetManager) : Prop where
  proposals : s.proposals.Agree (ProposalVoteIn k msgs) t.proposals
  budgets : s.budgets.Agree (FinalizedBudgetVoteIn k msgs) t.budgets

namespace Agree

theorem tail (ha : Agree k (x :: msgs) s t) : Agree k msgs s t where
  proposals := ha.proposals.mono fun _ ⟨e, vote, hmem, h⟩ => ⟨e, vote, List.mem_cons_of_mem x hmem, h⟩
  budgets := ha.budgets.mono fun _ ⟨e, vote, hmem, h⟩ => ⟨e, vote, List.mem_cons_of_mem x hmem, h⟩

theorem checkOrphanVotes (ha : Agree k msgs s t) (e : BudgetEnv D) :
    Agree k msgs (s.checkOrphanVotes k e) (t.checkOrphanVotes k e) :=
  ⟨ha.proposals.checkOrphanVotes, ha.budgets.checkOrphanVotes⟩

theorem processProposal (ha : Agree k msgs s t) (e : BudgetEnv D) (nHash : uint256) :
    Agree k msgs (s.processProposal k e nHash) (t.processProposal k e nHash) := by
  unfold CBudgetManager.processProposal
  rw [ha.proposals.items]
  split
  · exact ha
  · split
    · exact ha
    · have hadd : Agree k msgs { s with proposals := s.proposals.addItem nHash }
          { t with proposals := t.proposals.addItem nHash } := ⟨ha.proposals.addItem nHash, ha.budgets⟩
      exact hadd.checkOrphanVotes e

theorem processFinalizedBudget (ha : Agree k msgs s t) (e : BudgetEnv D) (nHash : uint256) :
    Agree k msgs (s.processFinalizedBudget k e nHash) (t.processFinalizedBudget k e nHash) := by
  unfold CBudgetManager.processFinalizedBudget
  rw [ha.budgets.items]
  split
  · exact ha
  · split
    · exact ha
    · have hadd : Agree k msgs { s with budgets := s.budgets.addItem nHash }
          { t with budgets := t.budgets.addItem nHash } := ⟨ha.proposals, ha.budgets.addItem nHash⟩
      exact hadd.checkOrphanVotes e

theorem step (ha : Agree k (x :: msgs) s t) (hsigned : x.2.signed k x.1.toSigningNodes = true) :
    Agree k msgs (s.processMessageInner k x.1 x.2).2 (t.processMessageInner k x.1 x.2).2 := by
  obtain ⟨e, msg⟩ := x
  unfold processMessageInner
  split
  · exact ha.tail
  · split
    · exact ha.tail
    · cases msg with
      | BUDGETPROPOSAL nHash => exact ha.tail.processProposal e nHash
      | FINALBUDGET nHash => exact ha.tail.processFinalizedBudget e nHash
      | BUDGETVOTE vote =>
        have hv : ProposalVoteIn k ((e, .BUDGETVOTE vote) :: msgs) (proposalVotes.getHash k vote) :=
          ⟨e, vote, List.mem_cons_self, hsigned, rfl⟩
        have hboth : Agree k _ (s.processProposalVote k e vote).2 (t.processProposalVote k e vote).2 :=
          ⟨ha.proposals.processVote vote hv, ha.budgets⟩
        exact hboth.tail
      | FINALBUDGETVOTE vote =>
        have hv : FinalizedBudgetVoteIn k ((e, .FINALBUDGETVOTE vote) :: msgs) (finalizedBudgetVotes.getHash k vote) :=
          ⟨e, vote, List.mem_cons_self, hsigned, rfl⟩
        have hboth : Agree k _ (s.processFinalizedBudgetVote k e vote).2 (t.processFinalizedBudgetVote k e vote).2 :=
          ⟨ha.proposals, ha.budgets.processVote vote hv⟩
        exact hboth.tail

theorem step_forged (ha : Agree k (x :: msgs) s t) (hsigned : x.2.signed k x.1.toSigningNodes = false)
    (hun : Unshadowed k s (x :: msgs)) : Agree k msgs (s.processMessageInner k x.1 x.2).2 t := by
  obtain ⟨e, msg⟩ := x
  unfold processMessageInner
  split
  · exact ha.tail
  · split
    · exact ha.tail
    · cases msg with
      | BUDGETPROPOSAL nHash => cases hsigned
      | FINALBUDGET nHash => cases hsigned
      | BUDGETVOTE vote =>
        exact ⟨ha.tail.proposals.processVote_left hsigned (hun.proposals [] e vote msgs rfl hsigned), ha.tail.budgets⟩
      | FINALBUDGETVOTE vote =>
        exact ⟨ha.tail.proposals, ha.tail.budgets.processVote_left hsigned (hun.budgets [] e vote msgs rfl hsigned)⟩

/-- The run on all messages and the one on those that are not forged. -/
theorem run (ha : Agree k msgs s t) (hun : Unshadowed k s msgs) :
    Agree (D := D) k [] (s.run k msgs) (t.run k (signedOnly k msgs)) := by
  induction msgs generalizing s t with
  | nil => exact ha
  | cons x msgs ih =>
    cases hsigned : x.2.signed k x.1.toSigningNodes with
    | true =>
      rw [signedOnly, List.filter_cons_of_pos (by exact hsigned), run_cons, run_cons]
      exact ih (ha.step hsigned) hun.tail
    | false =>
      rw [signedOnly, List.filter_cons_of_neg (by simp [hsigned]), run_cons]
      exact ih (ha.step_forged hsigned hun) hun.tail

end Agree

end CBudgetManager

variable (k)

/-- **Forged votes do not count**, where none of them has the hash of a vote with a good signature that comes later and
names a legacy node: the accepted votes are those of the run without them. -/
theorem forged_votes_do_not_count (s : CBudgetManager) (msgs : List (BudgetEnv D × BudgetMessage))
    (h : Unshadowed k s msgs) :
    (s.run k msgs).proposals.items = (s.run k (signedOnly k msgs)).proposals.items ∧
    (s.run k msgs).budgets.items = (s.run k (signedOnly k msgs)).budgets.items := by
  have ha : CBudgetManager.Agree k msgs s s := ⟨⟨rfl, rfl, fun _ _ => rfl⟩, ⟨rfl, rfl, fun _ _ => rfl⟩⟩
  have hrun := ha.run h
  exact ⟨hrun.proposals.items, hrun.budgets.items⟩

end Forged

namespace Sample

/-- A forged copy of a vote, and the vote, for a known proposal. -/
def forgedMessages (forged good : uint256) : List (BudgetEnv Bytes × BudgetMessage) :=
  [(budgetEnv, .BUDGETPROPOSAL 9), voteMessage (budgetEnv, budgetVote forged []), voteMessage (budgetEnv, budgetVote good [1])]

end Sample

/-- A forged vote of one node, and a vote of another. -/
theorem forged_votes_sample :
    (CBudgetManager.run messageCrypto {} (forgedMessages 1 2)).proposals.items =
      (CBudgetManager.run messageCrypto {} (signedOnly messageCrypto (forgedMessages 1 2))
        ).proposals.items := by
  refine (forged_votes_do_not_count messageCrypto {} (forgedMessages 1 2) ⟨?_, ?_⟩).1
  · intro pre e vote post hsplit hforged _ _ _
    rintro ⟨e', vote', hmem', hsigned', hhash⟩
    have hvotes : ∀ x ∈ forgedMessages 1 2, ∀ vote, x.2 = .BUDGETVOTE vote →
        x.1 = budgetEnv ∧ (vote = budgetVote 1 [] ∨ vote = budgetVote 2 [1]) := by
      simp [forgedMessages, voteMessage]
    rw [hsplit] at hvotes
    obtain ⟨rfl, hvote⟩ := hvotes (e, .BUDGETVOTE vote) (by simp) vote rfl
    obtain ⟨rfl, hvote'⟩ := hvotes (e', .BUDGETVOTE vote') (by simp [hmem']) vote' rfl
    have hsig : proposalVotes.signed messageCrypto budgetEnv.toSigningNodes (budgetVote 1 []) = false ∧
        proposalVotes.signed messageCrypto budgetEnv.toSigningNodes (budgetVote 2 [1]) = true ∧
        proposalVotes.getHash messageCrypto (budgetVote 2 [1]) ≠
          proposalVotes.getHash messageCrypto (budgetVote 1 []) := by
      decide +kernel
    rcases hvote with rfl | rfl
    · rcases hvote' with rfl | rfl
      · cases hsig.1.symm.trans hsigned'
      · exact hsig.2.2 hhash
    · cases hforged.symm.trans hsig.2.1
  · intro pre e vote post hsplit
    have hmem : (e, BudgetMessage.FINALBUDGETVOTE vote) ∈ forgedMessages 1 2 := by
      rw [hsplit]
      simp
    simp [forgedMessages, voteMessage] at hmem

/-- A forged copy of a vote of a legacy node: the vote itself is no longer accepted. -/
theorem forged_copy_blocks_vote :
    ((CBudgetManager.run messageCrypto {} (forgedMessages 1 1)).proposals.items[(9 : uint256)]?.map
      Std.ExtTreeMap.size) = some 0 ∧
    ((CBudgetManager.run messageCrypto {} (signedOnly messageCrypto (forgedMessages 1 1))
      ).proposals.items[(9 : uint256)]?.map Std.ExtTreeMap.size) = some 1 := by
  decide +kernel

end TrumpCoin
