import TrumpCoin.Payments.SignedMessage

/-!
# Budget votes

The handlers of `CBudgetManager` for proposals, finalized budgets and the votes on them (`budget/budgetmanager.cpp`).
The two kinds of votes are handled alike: `VoteKind` collects what they differ in, and `VoteBook` what the manager keeps
for one kind. A vote for an item that is not known waits in a map with one entry per item.

Whether `AddProposal` and `AddFinalizedBudget` find an item well formed, paid for and not expired is part of the
environment, and so is the clock. Requests to peers, relaying and the bookkeeping of the sync are left out.

* `latest_vote_wins_iff`: of the votes of a node on an item the one with the greatest time stays in every order, if and
  only if no difference of times overflows.
-/

namespace TrumpCoin

open Lib

/-! ## Votes -/

structure CBudgetVote extends CSignedMessage where
  nProposalHash : uint256
  nVote : BitVec 32
  nTime : Int64
  vin : CTxIn
deriving DecidableEq

namespace CBudgetVote

variable (k : MessageCrypto) (vote : CBudgetVote)

def getHash : uint256 :=
  k.hashWriter (vote.vin.serialize ++ (blob 32).write vote.nProposalHash ++ (uintLE 4).write vote.nVote ++
    (uintLE 8).write vote.nTime.toBitVec)

def getStrMessage : String :=
  vote.vin.prevout.toStringShort ++ " " ++ vote.nProposalHash.toHex ++ " " ++ toString vote.nVote.toInt ++ " " ++
    toString vote.nTime

def checkSignature (keyID : CKeyID) : Bool :=
  vote.toCSignedMessage.checkSignature k (vote.getHash k) vote.getStrMessage keyID

end CBudgetVote

structure CFinalizedBudgetVote extends CSignedMessage where
  vin : CTxIn
  nBudgetHash : uint256
  nTime : Int64
deriving DecidableEq

namespace CFinalizedBudgetVote

variable (k : MessageCrypto) (vote : CFinalizedBudgetVote)

def getHash : uint256 :=
  k.hashWriter (vote.vin.serialize ++ (blob 32).write vote.nBudgetHash ++
    (uintLE 8).write vote.nTime.toBitVec)

def getStrMessage : String :=
  vote.vin.prevout.toStringShort ++ " " ++ vote.nBudgetHash.toHex ++ " " ++ toString vote.nTime

def checkSignature (keyID : CKeyID) : Bool :=
  vote.toCSignedMessage.checkSignature k (vote.getHash k) vote.getStrMessage keyID

end CFinalizedBudgetVote

/-- What the two kinds of votes differ in. -/
structure VoteKind (V : Type) where
  vin : V → CTxIn
  /-- the item that is voted on -/
  target : V → uint256
  getTime : V → Int64
  getHash : MessageCrypto → V → uint256
  checkSignature : MessageCrypto → V → CKeyID → Bool
  /-- the key with which a deterministic node votes -/
  signingKey : CDeterministicPNState → CKeyID
  badSignature : String
  badVote : String
  notFound : uint256 → String

def proposalVotes : VoteKind CBudgetVote where
  vin := CBudgetVote.vin
  target := CBudgetVote.nProposalHash
  getTime := CBudgetVote.nTime
  getHash := CBudgetVote.getHash
  checkSignature := CBudgetVote.checkSignature
  signingKey := CDeterministicPNState.keyIDVoting
  badSignature := "bad-mvote-sig"
  badVote := "bad-mvote"
  notFound _ := "Proposal not found!"

def finalizedBudgetVotes : VoteKind CFinalizedBudgetVote where
  vin := CFinalizedBudgetVote.vin
  target := CFinalizedBudgetVote.nBudgetHash
  getTime := CFinalizedBudgetVote.nTime
  getHash := CFinalizedBudgetVote.getHash
  checkSignature := CFinalizedBudgetVote.checkSignature
  signingKey := CDeterministicPNState.keyIDOperator
  badSignature := "bad-fbvote-sig"
  badVote := "bad-fbvote"
  notFound nBudgetHash := "Finalized Budget " ++ nBudgetHash.toHex ++ " not found!"

/-! ## The votes on one kind of items -/

structure BudgetEnv (D : Type) [Digest D] extends SigningNodes D where
  fLiteMode : Bool := false
  isBlockchainSynced : Bool := true
  isSynced : Bool := true
  getTime : Int64
  /-- the checks of `AddProposal` -/
  addProposal : uint256 → Bool := fun _ => true
  /-- the checks of `AddFinalizedBudget` -/
  addFinalizedBudget : uint256 → Bool := fun _ => true

/-- The known items with `mapVotes` of each, the votes that were seen, and the votes that wait for their item. -/
structure VoteBook {V : Type} (K : VoteKind V) where
  items : FinMap uint256 (FinMap COutPoint V) := ∅
  seen : FinMap uint256 V := ∅
  orphans : FinMap uint256 V := ∅
  /-- a waiting vote is kept under the item it is for -/
  keyed : ∀ (h : uint256) v, orphans[h]? = some v → K.target v = h := by
    exact FinMap.forall_empty

def BUDGET_VOTE_UPDATE_MIN : Int64 := 60 * 60

inductive VoteOutcome where
  | accepted
  | ignored
  | dos (nDoS : Nat) (reason : String)
deriving DecidableEq

namespace VoteBook

variable {V : Type} {K : VoteKind V} {D : Type} [Digest D] (k : MessageCrypto) (e : BudgetEnv D) (b : VoteBook K)

variable (mapVotes : FinMap COutPoint V)

def addOrUpdateVote (v : V) : Except String (FinMap COutPoint V) := do
  let mnId := (K.vin v).prevout
  let voteTime := K.getTime v
  match mapVotes[mnId]? with
  | some old =>
    require ("new vote older than existing vote - " ++ (K.getHash k v).toHex ++ "\n") (¬voteTime < K.getTime old)
    require ("time between votes is too soon - " ++ (K.getHash k v).toHex ++ " - " ++
      toString (voteTime - K.getTime old) ++ " sec < " ++ toString BUDGET_VOTE_UPDATE_MIN ++ " sec\n")
      (¬voteTime - K.getTime old < BUDGET_VOTE_UPDATE_MIN)
  | none => pure ()
  require ("new vote is too far ahead of current time - " ++ (K.getHash k v).toHex ++ " - nTime " ++ toString voteTime ++
    " - Max Time " ++ toString (e.getTime + 60 * 60) ++ "\n") (¬e.getTime + 60 * 60 < voteTime)
  return mapVotes.insert mnId v

/-- `AddSeenProposalVote`, `AddSeenFinalizedBudgetVote`. -/
def addSeen (v : V) : VoteBook K := { b with seen := b.seen.emplace (K.getHash k v) v }

/-- A vote for an unknown item waits; an earlier one for the same item is replaced. -/
def addOrphan (v : V) : VoteBook K :=
  { b with
    orphans := b.orphans.insert (K.target v) v
    keyed := FinMap.forall_insert b.keyed rfl }

def removeOrphan (hash : uint256) : VoteBook K :=
  { b with
    orphans := b.orphans.erase hash
    keyed := FinMap.forall_erase b.keyed }

/-- `UpdateProposal`, `UpdateFinalizedBudget`; `pfrom` tells whether the vote comes from a peer. -/
def update (pfrom : Bool) (v : V) : Except String Unit × VoteBook K :=
  match b.items[K.target v]? with
  | none =>
    if pfrom then
      if e.isSynced then (.error (K.notFound (K.target v)), b.addOrphan v)
      else (.error "", b)
    else (.error (K.notFound (K.target v)), b)
  | some mapVotes =>
    match addOrUpdateVote (K := K) k e mapVotes v with
    | .ok mapVotes => (.ok (), { b with items := b.items.insert (K.target v) mapVotes })
    | .error strError => (.error strError, b)

/-- The body of a loop of `CheckOrphanVotes`. -/
def checkOrphanVote (b : VoteBook K) (orphan : uint256 × V) : VoteBook K :=
  match b.update k e false orphan.2 with
  | (.ok _, b) => b.removeOrphan orphan.1
  | (.error _, b) => b

/-- A loop of `CheckOrphanVotes`. -/
def checkOrphanVotes : VoteBook K := b.orphans.toList.foldl (checkOrphanVote k e) b

/-- A vote that passed all checks on its signer. -/
def accept (pfrom : Bool) (v : V) : VoteOutcome × VoteBook K :=
  match b.update k e pfrom v with
  | (.ok _, b) => (.accepted, b)
  | (.error _, b) => (.dos 0 K.badVote, b)

/-- `ProcessProposalVote`, `ProcessFinalizedBudgetVote`. The reason for a bad signature of a legacy node is the same text
for both. -/
def processVote (pfrom : Bool) (v : V) : VoteOutcome × VoteBook K :=
  if b.seen[K.getHash k v]?.isSome then (.ignored, b)
  else
    match e.mnList.getPNByCollateral (K.vin v).prevout with
    | some dmn =>
      if K.checkSignature k v (K.signingKey dmn.pdmnState) = false then (.dos 100 K.badSignature, b)
      else if dmn.isPNValid = false then (.dos 0 K.badVote, b.addSeen k v)
      else (b.addSeen k v).accept k e pfrom v
    | none =>
      match e.find (K.vin v).prevout with
      | none => (.dos 0 K.badVote, b)
      | some pmn =>
        if K.checkSignature k v pmn.keyID = false then
          (if e.isSynced then .dos 20 "bad-fbvote" else .ignored, b.addSeen k v)
        else if pmn.isEnabled = false then (.dos 0 K.badVote, b.addSeen k v)
        else (b.addSeen k v).accept k e pfrom v

/-- `mapProposals.emplace`, `mapFinalizedBudgets.emplace`, of an item without votes. -/
def addItem (hash : uint256) : VoteBook K := { b with items := b.items.emplace hash ∅ }

/-! ## The votes of one node on one item -/

/-- A vote that is refused changes nothing. -/
def addVote (x : BudgetEnv D × V) : FinMap COutPoint V :=
  (addOrUpdateVote (K := K) k x.1 mapVotes x.2).toOption.getD mapVotes

def addVotes (votes : List (BudgetEnv D × V)) : FinMap COutPoint V :=
  votes.foldl (addVote (K := K) k) mapVotes

variable {k} {m : FinMap COutPoint V} {o : COutPoint} {x : BudgetEnv D × V}

/-- The time from `w` to `v` as a number, which may be too large for the type of the times. -/
def gap (K : VoteKind V) (v w : V) : Int := (K.getTime v).toInt - (K.getTime w).toInt

/-- `v` is at least the minimal time later than `old`, and the difference does not overflow. -/
def Supersedes (K : VoteKind V) (v old : V) : Prop :=
  BUDGET_VOTE_UPDATE_MIN.toInt ≤ gap K v old ∧ gap K v old < 2 ^ 63

instance (K : VoteKind V) (v old : V) : Decidable (Supersedes K v old) := inferInstanceAs (Decidable (_ ∧ _))

theorem BUDGET_VOTE_UPDATE_MIN_toInt : BUDGET_VOTE_UPDATE_MIN.toInt = 3600 := by decide

theorem supersedes_iff {v old : V} :
    Supersedes K v old ↔
      ¬K.getTime v < K.getTime old ∧ ¬K.getTime v - K.getTime old < BUDGET_VOTE_UPDATE_MIN := by
  have hv := (K.getTime v).toInt_lt
  have hlow := (K.getTime old).le_toInt
  rw [Int64.lt_iff_toInt_lt, Int64.lt_iff_toInt_lt, Int64.toInt_sub, Supersedes, BUDGET_VOTE_UPDATE_MIN_toInt, gap]
  -- a difference that is not negative is below `2 ^ 64` and wraps at most once
  rw [Int.bmod_def]
  omega

theorem Supersedes.not_symm {v w : V} (h : Supersedes K v w) : ¬Supersedes K w v := fun h' => by
  have hv := h.1
  have hw := h'.1
  rw [BUDGET_VOTE_UPDATE_MIN_toInt] at hv hw
  unfold gap at hv hw
  omega

/-- A timely vote is stored if it supersedes the one that is there. -/
theorem addVote_eq (htime : K.getTime x.2 ≤ x.1.getTime + 60 * 60) :
    addVote (K := K) k m x =
      if (m[(K.vin x.2).prevout]?).all fun old => Supersedes K x.2 old then m.insert (K.vin x.2).prevout x.2
      else m := by
  unfold addVote addOrUpdateVote
  dsimp only
  have hnow : K.getTime x.2 ≤ x.1.getTime + 3600 := htime
  cases m[(K.vin x.2).prevout]? with
  | none => simp [require, Except.toOption, hnow]
  | some old =>
    have hiff : Supersedes K x.2 old ↔ _ := supersedes_iff
    by_cases hold : K.getTime x.2 < K.getTime old
    · simp [require, Except.toOption, hiff, hold]
    · by_cases hsoon : K.getTime x.2 - K.getTime old < BUDGET_VOTE_UPDATE_MIN
      · simp [require, Except.toOption, hiff, hold, hsoon]
      · simp [require, Except.toOption, hiff, hold, hsoon, hnow]

theorem addVote_get (htime : K.getTime x.2 ≤ x.1.getTime + 60 * 60) (hnode : (K.vin x.2).prevout = o) :
    (addVote (K := K) k m x)[o]? = if m[o]?.all fun old => Supersedes K x.2 old then some x.2 else m[o]? := by
  rw [addVote_eq htime, hnode]
  split <;> simp

/-- The votes of other nodes stay as they were. -/
theorem addVote_get_ne {o' : COutPoint} (htime : K.getTime x.2 ≤ x.1.getTime + 60 * 60)
    (hne : (K.vin x.2).prevout ≠ o') : (addVote (K := K) k m x)[o']? = m[o']? := by
  rw [addVote_eq htime]
  split
  · exact FinMap.get_insert_ne m _ hne
  · rfl

/-- The times of different votes are at least the minimal time between updates apart. -/
def Spaced (K : VoteKind V) (votes : List V) : Prop :=
  ∀ v ∈ votes, ∀ w ∈ votes, v ≠ w →
    BUDGET_VOTE_UPDATE_MIN.toInt ≤ gap K v w ∨ BUDGET_VOTE_UPDATE_MIN.toInt ≤ gap K w v

/-- `v` supersedes all other votes. -/
structure Latest (K : VoteKind V) (votes : List V) (v : V) : Prop where
  mem : v ∈ votes
  supersedes : ∀ w ∈ votes, w ≠ v → Supersedes K v w

section Latest

variable {votes : List (BudgetEnv D × V)} {v : V}

theorem Spaced.latest {vs : List V} (h : Spaced K vs) (hv : v ∈ vs) (hmax : ∀ w ∈ vs, K.getTime w ≤ K.getTime v)
    (hfit : ∀ w ∈ vs, gap K v w < 2 ^ 63) : Latest K vs v where
  mem := hv
  supersedes w hw hne := by
    have hle := Int64.le_iff_toInt_le.mp (hmax w hw)
    have hgap := h v hv w hw hne.symm
    refine ⟨?_, hfit w hw⟩
    rw [BUDGET_VOTE_UPDATE_MIN_toInt] at hgap ⊢
    unfold gap at hgap ⊢
    omega

/-- A vote that supersedes the others is stored, once, and stays. -/
theorem Latest.addVote (h : Latest K (m[o]?.toList ++ x.2 :: votes.map Prod.snd) v)
    (htime : K.getTime x.2 ≤ x.1.getTime + 60 * 60) (hnode : (K.vin x.2).prevout = o) :
    Latest K ((addVote (K := K) k m x)[o]?.toList ++ votes.map Prod.snd) v := by
  obtain ⟨hmem, hsup⟩ := h
  rw [addVote_get htime hnode]
  cases hold : m[o]? with
  | none => simpa [hold] using Latest.mk hmem hsup
  | some old =>
    rw [hold] at hmem hsup
    by_cases hnew : Supersedes K x.2 old
    · -- an earlier vote that is replaced is not `v`
      have hne : v ≠ old := by
        rintro rfl
        by_cases hx : x.2 = v
        · rw [hx] at hnew
          exact hnew.not_symm hnew
        · exact hnew.not_symm (hsup x.2 (by simp) hx)
      refine ⟨by simpa [hnew, hne] using hmem, fun w hw => hsup w ?_⟩
      have : w = x.2 ∨ w ∈ votes.map Prod.snd := by simpa [hnew] using hw
      simp only [Option.toList_some, List.cons_append, List.nil_append, List.mem_cons]
      exact Or.inr this
    · have hkeep : v = old ∨ v ∈ votes.map Prod.snd := by
        by_contra hno
        rw [not_or] at hno
        have hvx : v = x.2 := by simpa [hno.1, hno.2] using hmem
        exact hnew (hvx ▸ hsup old (by simp) fun e => hno.1 e.symm)
      refine ⟨by simpa [hnew] using hkeep, fun w hw => hsup w ?_⟩
      have : w = old ∨ w ∈ votes.map Prod.snd := by simpa [hnew] using hw
      simp only [Option.toList_some, List.cons_append, List.nil_append, List.mem_cons]
      exact this.imp_right Or.inr

theorem Latest.addVotes (hnode : ∀ x ∈ votes, (K.vin x.2).prevout = o)
    (hfuture : ∀ x ∈ votes, K.getTime x.2 ≤ x.1.getTime + 60 * 60)
    (h : Latest K (m[o]?.toList ++ votes.map Prod.snd) v) : (addVotes (K := K) k m votes)[o]? = some v := by
  induction votes generalizing m with
  | nil => simpa [VoteBook.addVotes, eq_comm] using h.mem
  | cons x votes ih =>
    rw [List.forall_mem_cons] at hnode hfuture
    exact ih hnode.2 hfuture.2 (h.addVote hfuture.1 hnode.1)

/-- What is stored in the end was stored before or delivered. -/
theorem addVotes_get_mem (hnode : ∀ x ∈ votes, (K.vin x.2).prevout = o)
    (hfuture : ∀ x ∈ votes, K.getTime x.2 ≤ x.1.getTime + 60 * 60)
    (h : (addVotes (K := K) k m votes)[o]? = some v) : v ∈ m[o]?.toList ++ votes.map Prod.snd := by
  induction votes generalizing m with
  | nil => simpa [VoteBook.addVotes, eq_comm] using h
  | cons x votes ih =>
    rw [List.forall_mem_cons] at hnode hfuture
    have hmem := ih hnode.2 hfuture.2 h
    rw [addVote_get hfuture.1 hnode.1] at hmem
    rw [List.map_cons, List.append_cons, List.mem_append]
    refine (List.mem_append.mp hmem).imp_left fun hv => ?_
    split at hv
    · exact List.mem_append_right _ hv
    · exact List.mem_append_left _ hv

theorem addVotes_get_ne (hnode : ∀ x ∈ votes, (K.vin x.2).prevout = o)
    (hfuture : ∀ x ∈ votes, K.getTime x.2 ≤ x.1.getTime + 60 * 60) {o' : COutPoint} (hne : o' ≠ o) :
    (addVotes (K := K) k m votes)[o']? = m[o']? := by
  induction votes generalizing m with
  | nil => rfl
  | cons x votes ih =>
    rw [List.forall_mem_cons] at hnode hfuture
    exact (ih hnode.2 hfuture.2).trans (addVote_get_ne hfuture.1 (hnode.1 ▸ hne.symm))

theorem addVotes_get_of_not_supersedes {w : V} (hold : m[o]? = some w) (hnode : ∀ x ∈ votes, (K.vin x.2).prevout = o)
    (hfuture : ∀ x ∈ votes, K.getTime x.2 ≤ x.1.getTime + 60 * 60) (h : ∀ x ∈ votes, ¬Supersedes K x.2 w) :
    (addVotes (K := K) k m votes)[o]? = some w := by
  induction votes generalizing m with
  | nil => exact hold
  | cons x votes ih =>
    rw [List.forall_mem_cons] at hnode hfuture h
    refine ih ?_ hnode.2 hfuture.2 h.2
    rw [addVote_get hfuture.1 hnode.1]
    simp [hold, h.1]

/-- The order that keeps `v` out: first a vote that `v` does not supersede, then `v`, then the others. -/
theorem exists_perm_without {w : V} (hnew : m[o]? = none) (hnode : ∀ x ∈ votes, (K.vin x.2).prevout = o)
    (hfuture : ∀ x ∈ votes, K.getTime x.2 ≤ x.1.getTime + 60 * 60) (hw : w ∈ votes.map Prod.snd) (hne : w ≠ v)
    (hkeeps : ¬Supersedes K v w) :
    ∃ votes' : List (BudgetEnv D × V), votes'.Perm votes ∧ (addVotes (K := K) k m votes')[o]? ≠ some v := by
  classical
  obtain ⟨x, hx, rfl⟩ := List.mem_map.mp hw
  obtain ⟨before, after, rfl⟩ := List.append_of_mem hx
  let isV : BudgetEnv D × V → Bool := fun y => y.2 = v
  have hperm : (x :: ((before ++ after).filter isV ++ (before ++ after).filter fun y => !isV y)).Perm
      (before ++ x :: after) :=
    ((List.filter_append_perm isV _).cons x).trans List.perm_middle.symm
  refine ⟨_, hperm, fun hstored => ?_⟩
  obtain ⟨hnodex, hnode⟩ := List.forall_mem_cons.mp fun y hy => hnode y (hperm.subset hy)
  obtain ⟨hfuturex, hfuture⟩ := List.forall_mem_cons.mp fun y hy => hfuture y (hperm.subset hy)
  rw [List.forall_mem_append] at hnode hfuture
  rw [addVotes, List.foldl_cons, List.foldl_append] at hstored
  have hfirst : (addVote (K := K) k m x)[o]? = some x.2 := by rw [addVote_get hfuturex hnodex]; simp [hnew]
  have hkept := addVotes_get_of_not_supersedes (k := k) hfirst hnode.1 hfuture.1 fun y hy => by
    have hyv : y.2 = v := by simpa [isV] using (List.mem_filter.mp hy).2
    rwa [hyv]
  have hmem := addVotes_get_mem hnode.2 hfuture.2 hstored
  rw [addVotes] at hkept
  rw [hkept] at hmem
  -- what comes after `v` is not `v`
  obtain rfl | hv : v = x.2 ∨ v ∈ ((before ++ after).filter fun y => !isV y).map Prod.snd := by
    simpa only [Option.toList_some, List.singleton_append, List.mem_cons] using hmem
  · exact hne rfl
  · obtain ⟨y, hy, hyv⟩ := List.mem_map.mp hv
    simpa [isV, hyv] using (List.mem_filter.mp hy).2

/-- **Latest vote wins.** Votes of one node that are spaced and not too far in the future leave the one with the
greatest time in whatever order they come, if and only if the time from none of them to that one overflows. The votes
of other nodes stay as they were. -/
theorem latest_vote_wins_iff (K : VoteKind V) (k : MessageCrypto) (m : FinMap COutPoint V) (o : COutPoint)
    (hnew : m[o]? = none) (votes : List (BudgetEnv D × V)) (hnode : ∀ x ∈ votes, (K.vin x.2).prevout = o)
    (hfuture : ∀ x ∈ votes, K.getTime x.2 ≤ x.1.getTime + 60 * 60) (hspaced : Spaced K (votes.map Prod.snd)) (v : V)
    (hv : v ∈ votes.map Prod.snd) (hmax : ∀ w ∈ votes.map Prod.snd, K.getTime w ≤ K.getTime v) :
    ((∀ votes' : List (BudgetEnv D × V), votes'.Perm votes → (addVotes (K := K) k m votes')[o]? = some v) ↔
        ∀ w ∈ votes.map Prod.snd, gap K v w < 2 ^ 63) ∧
      ∀ votes' : List (BudgetEnv D × V), votes'.Perm votes →
        ∀ o', o' ≠ o → (addVotes (K := K) k m votes')[o']? = m[o']? := by
  refine ⟨⟨fun hall w hw => ?_, fun hfit votes' hperm => ?_⟩, fun votes' hperm o' hne =>
    addVotes_get_ne (fun x hx => hnode x (hperm.subset hx)) (fun x hx => hfuture x (hperm.subset hx)) hne⟩
  · by_contra hbig
    have hne : w ≠ v := by
      rintro rfl
      exact hbig (by simp [gap])
    obtain ⟨votes', hperm, hout⟩ := exists_perm_without (k := k) hnew hnode hfuture hw hne fun h => hbig h.2
    exact hout (hall votes' hperm)
  · have hlatest := hspaced.latest hv hmax hfit
    refine Latest.addVotes (fun x hx => hnode x (hperm.subset hx)) (fun x hx => hfuture x (hperm.subset hx)) ?_
    rw [hnew, Option.toList_none, List.nil_append]
    exact ⟨(hperm.map Prod.snd).mem_iff.mpr hv,
      fun w hw => hlatest.supersedes w ((hperm.map Prod.snd).mem_iff.mp hw)⟩

end Latest

end VoteBook

def Sample.voteAt (nTime : Int64) : CBudgetVote := { nProposalHash := 1, nVote := 1, nTime := nTime, vin := {} }

/-- Three votes on a proposal within four hours. -/
theorem VoteBook.latest_vote_wins_sample :
    let e : BudgetEnv Bytes := { getTime := 1700014400 }
    let votes := [(e, Sample.voteAt 1700014400), (e, Sample.voteAt 1700000000), (e, Sample.voteAt 1700007200)]
    (∀ votes' : List (BudgetEnv Bytes × CBudgetVote), votes'.Perm votes →
      (addVotes (K := proposalVotes) Sample.messageCrypto ∅ votes')[({} : COutPoint)]? =
        some (Sample.voteAt 1700014400)) ∧
      ∀ votes' : List (BudgetEnv Bytes × CBudgetVote), votes'.Perm votes → ∀ o' : COutPoint, o' ≠ {} →
        (addVotes (K := proposalVotes) Sample.messageCrypto ∅ votes')[o']? = none := by
  intro e votes
  have h := latest_vote_wins_iff proposalVotes Sample.messageCrypto ∅ {} rfl votes (by decide) (by decide)
    (by unfold Spaced; decide) (Sample.voteAt 1700014400) (by decide) (by decide)
  exact ⟨h.1.mpr (by decide), h.2⟩

/-- A vote with the least time there is keeps every current vote of its node out: the difference of the times is
negative. -/
theorem VoteBook.overflowing_vote_stays :
    let e : BudgetEnv Bytes := { getTime := 1700000000 }
    let votes := [Sample.voteAt Int64.minValue, Sample.voteAt 1700000000]
    Spaced proposalVotes votes ∧ (∀ v ∈ votes, v.nTime ≤ e.getTime + 60 * 60) ∧
      (addVotes (K := proposalVotes) Sample.messageCrypto ∅ (votes.map (e, ·)))[({} : COutPoint)]? =
        some (Sample.voteAt Int64.minValue) := by
  refine ⟨by unfold Spaced; decide, by decide, by decide⟩

/-! ## The manager -/

structure CBudgetManager where
  proposals : VoteBook proposalVotes := {}
  budgets : VoteBook finalizedBudgetVotes := {}

/-- The messages of peers. A proposal or finalized budget is given by its hash. -/
inductive BudgetMessage where
  | BUDGETPROPOSAL (nHash : uint256)
  | BUDGETVOTE (vote : CBudgetVote)
  | FINALBUDGET (nHash : uint256)
  | FINALBUDGETVOTE (vote : CFinalizedBudgetVote)
deriving DecidableEq

namespace CBudgetManager

variable {D : Type} [Digest D] (k : MessageCrypto) (e : BudgetEnv D) (s : CBudgetManager)

def checkOrphanVotes : CBudgetManager :=
  ⟨s.proposals.checkOrphanVotes k e, s.budgets.checkOrphanVotes k e⟩

def processProposal (nHash : uint256) : CBudgetManager :=
  if s.proposals.items[nHash]?.isSome then s
  else if e.addProposal nHash = false then s
  else checkOrphanVotes k e { s with proposals := s.proposals.addItem nHash }

def processFinalizedBudget (nHash : uint256) : CBudgetManager :=
  if s.budgets.items[nHash]?.isSome then s
  else if e.addFinalizedBudget nHash = false then s
  else checkOrphanVotes k e { s with budgets := s.budgets.addItem nHash }

def processProposalVote (vote : CBudgetVote) : VoteOutcome × CBudgetManager :=
  let (outcome, proposals) := s.proposals.processVote k e true vote
  (outcome, { s with proposals := proposals })

def processFinalizedBudgetVote (vote : CFinalizedBudgetVote) : VoteOutcome × CBudgetManager :=
  let (outcome, budgets) := s.budgets.processVote k e true vote
  (outcome, { s with budgets := budgets })

def banScore : VoteOutcome → Nat
  | .dos nDoS _ => nDoS
  | _ => 0

def processMessageInner (msg : BudgetMessage) : Nat × CBudgetManager :=
  if e.fLiteMode then (0, s)
  else if e.isBlockchainSynced = false then (0, s)
  else
    match msg with
    | .BUDGETPROPOSAL nHash => (0, s.processProposal k e nHash)
    | .FINALBUDGET nHash => (0, s.processFinalizedBudget k e nHash)
    | .BUDGETVOTE vote =>
      let (outcome, s) := s.processProposalVote k e vote
      (banScore outcome, s)
    | .FINALBUDGETVOTE vote =>
      let (outcome, s) := s.processFinalizedBudgetVote k e vote
      (banScore outcome, s)

def run (s : CBudgetManager) (msgs : List (BudgetEnv D × BudgetMessage)) : CBudgetManager :=
  msgs.foldl (fun s msg => (s.processMessageInner k msg.1 msg.2).2) s

end CBudgetManager

end TrumpCoin
