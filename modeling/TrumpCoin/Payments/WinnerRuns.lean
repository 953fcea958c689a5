import Mathlib.Data.List.Dedup
import TrumpCoin.Payments.Winners

/-!
# Runs of payee votes

* `forged_winners_have_no_influence`: messages whose signature does not verify. `CanVote` stands before the signature is
  checked, so a forged message can use up the vote of a node (`forged_winner_blocks_vote`).
* `one_vote_per_node_and_height`: how often a node is counted. Only the last height is remembered, so a node that goes
  back to a height votes for it twice (`two_votes_for_one_height`).
-/

namespace TrumpCoin

open Lib

/-! ## One message -/

namespace CPatriotnodePayments

section Step

variable {D : Type} [Digest D] {k : MessageCrypto} {p : CChainParams} {s t : CPatriotnodePayments} {e : WinnerEnv D}
  {w : CPatriotnodePaymentWinner}

variable (k p s e w) in
/-- `CanVote` is reached by the message and records its height. -/
def Records : Prop :=
  s.screen k p e w = none ∧ s.mapPatriotnodesLastVote[w.vinPatriotnode.prevout]? ≠ some w.nBlockHeight

variable (s w) in
/-- The state after `CanVote` has recorded the message. -/
def recorded : CPatriotnodePayments :=
  { s with mapPatriotnodesLastVote :=
      s.mapPatriotnodesLastVote.insert w.vinPatriotnode.prevout w.nBlockHeight }

theorem processWinner_of_not_records (h : ¬s.Records k p e w) : (s.processWinner k p e w).2 = s := by
  unfold processWinner
  cases hscreen : s.screen k p e w with
  | some outcome => rfl
  | none =>
    have hlast : s.mapPatriotnodesLastVote[w.vinPatriotnode.prevout]? = some w.nBlockHeight :=
      Decidable.not_not.mp fun hne => h ⟨hscreen, hne⟩
    simp only [canVote, if_pos hlast]

theorem processWinner_of_forged (h : s.Records k p e w) (hsigned : w.signed k e.toSigningNodes = false) :
    (s.processWinner k p e w).2 = s.recorded w := by
  unfold processWinner
  rw [h.1]
  simp only [canVote, if_neg h.2]
  unfold CPatriotnodePaymentWinner.signed at hsigned
  cases hkey : e.keyOf CDeterministicPNState.keyIDOperator w.vinPatriotnode.prevout with
  | none => rfl
  | some keyID =>
    rw [hkey] at hsigned
    simp only [show w.checkSignature k keyID = false from hsigned, if_true]
    rfl

theorem processWinner_of_signed (h : s.Records k p e w) (hsigned : w.signed k e.toSigningNodes = true) :
    s.processWinner k p e w =
      (if ((s.recorded w).addWinningPatriotnode k e w).1 then .added else .notAdded,
        ((s.recorded w).addWinningPatriotnode k e w).2) := by
  unfold processWinner
  rw [h.1]
  simp only [canVote, if_neg h.2]
  unfold CPatriotnodePaymentWinner.signed at hsigned
  cases hkey : e.keyOf CDeterministicPNState.keyIDOperator w.vinPatriotnode.prevout with
  | none =>
    rw [hkey] at hsigned
    cases hsigned
  | some keyID =>
    rw [hkey] at hsigned
    simp only [show w.checkSignature k keyID = true from hsigned, Bool.true_eq_false, if_false]
    rw [← recorded]
    rcases (s.recorded w).addWinningPatriotnode k e w with ⟨_ | _, s'⟩
    · rfl
    · rfl

theorem processWinner_of_voted (hscreen : s.screen k p e w = none)
    (hlast : s.mapPatriotnodesLastVote[w.vinPatriotnode.prevout]? = some w.nBlockHeight) :
    s.processWinner k p e w = (.alreadyVoted, s) := by
  rw [processWinner, hscreen]
  simp only [canVote, if_pos hlast]

end Step

end CPatriotnodePayments

/-! ## Forged messages -/

section Forged

variable {D : Type} [Digest D] (k : MessageCrypto) (p : CChainParams)

/-- The event is no message whose signature does not verify. -/
def PaymentsEvent.signed : PaymentsEvent D → Bool
  | .PNWINNER e w => w.signed k e.toSigningNodes
  | _ => true

/-- The node votes for the height with a good signature in one of the events. -/
def VotesFor (events : List (PaymentsEvent D)) (o : COutPoint) (nBlockHeight : Int) : Prop :=
  ∃ e w, .PNWINNER e w ∈ events ∧ w.signed k e.toSigningNodes = true ∧ w.vinPatriotnode.prevout = o ∧
    w.nBlockHeight = nBlockHeight

/-- Where `CanVote` records a message with a bad signature, the node it names votes neither for the recorded height nor
for the one that is no longer remembered in the rest of the run. -/
def Harmless (s : CPatriotnodePayments) (events : List (PaymentsEvent D)) : Prop :=
  ∀ pre e w post, events = pre ++ .PNWINNER e w :: post → w.signed k e.toSigningNodes = false →
    (s.run k p pre).Records k p e w → ∀ nBlockHeight, VotesFor k post w.vinPatriotnode.prevout nBlockHeight →
      nBlockHeight ≠ w.nBlockHeight ∧
      (s.run k p pre).mapPatriotnodesLastVote[w.vinPatriotnode.prevout]? ≠ some nBlockHeight

variable {k p} {s t : CPatriotnodePayments} {event : PaymentsEvent D} {events : List (PaymentsEvent D)}

theorem Harmless.tail (h : Harmless k p s (event :: events)) : Harmless k p (s.handle k p event).2 events := by
  intro pre e w post hsplit
  exact h (event :: pre) e w post (by rw [hsplit]; rfl)

namespace CPatriotnodePayments

/-- The states agree on the votes; the last votes of a node may differ where it votes for neither height later. -/
structure Agree (k : MessageCrypto) (events : List (PaymentsEvent D)) (s t : CPatriotnodePayments) : Prop where
  votes : s.mapPatriotnodePayeeVotes = t.mapPatriotnodePayeeVotes
  blocks : s.mapPatriotnodeBlocks = t.mapPatriotnodeBlocks
  last : ∀ o : COutPoint, s.mapPatriotnodesLastVote[o]? = t.mapPatriotnodesLastVote[o]? ∨
    ∀ nBlockHeight, VotesFor k events o nBlockHeight → s.mapPatriotnodesLastVote[o]? ≠ some nBlockHeight ∧
      t.mapPatriotnodesLastVote[o]? ≠ some nBlockHeight

namespace Agree

theorem tail (ha : Agree k (event :: events) s t) : Agree k events s t where
  votes := ha.votes
  blocks := ha.blocks
  last o := (ha.last o).imp id fun h nBlockHeight ⟨e, w, hmem, hw⟩ =>
    h nBlockHeight ⟨e, w, List.mem_cons_of_mem event hmem, hw⟩

variable (ha : Agree k events s t)
include ha

theorem screen (e : WinnerEnv D) (w : CPatriotnodePaymentWinner) : s.screen k p e w = t.screen k p e w := by
  unfold CPatriotnodePayments.screen
  rw [ha.votes]

theorem cleanPaymentList (mnCount nHeight : Int) :
    Agree k events (s.cleanPaymentList mnCount nHeight) (t.cleanPaymentList mnCount nHeight) := by
  refine ⟨?_, ?_, ha.last⟩
  · simp only [CPatriotnodePayments.cleanPaymentList, ha.votes]
  · simp only [CPatriotnodePayments.cleanPaymentList, ha.votes, ha.blocks]

theorem recorded (w : CPatriotnodePaymentWinner) : Agree k events (s.recorded w) (t.recorded w) := by
  refine ⟨ha.votes, ha.blocks, fun o => ?_⟩
  simp only [CPatriotnodePayments.recorded, FinMap.get_insert]
  by_cases ho : w.vinPatriotnode.prevout = o
  · simp only [if_pos ho, true_or]
  · simp only [if_neg ho]
    exact ha.last o

theorem addWinningPatriotnode (e : WinnerEnv D) (w : CPatriotnodePaymentWinner) :
    (s.addWinningPatriotnode k e w).1 = (t.addWinningPatriotnode k e w).1 ∧
      Agree k events (s.addWinningPatriotnode k e w).2 (t.addWinningPatriotnode k e w).2 := by
  unfold CPatriotnodePayments.addWinningPatriotnode
  rw [ha.votes, ha.blocks]
  split
  · exact ⟨rfl, ha⟩
  · split
    · exact ⟨rfl, ha⟩
    · exact ⟨rfl, rfl, rfl, ha.last⟩

omit ha

theorem processWinner {e : WinnerEnv D} {w : CPatriotnodePaymentWinner} (ha : Agree k (.PNWINNER e w :: events) s t)
    (hsigned : w.signed k e.toSigningNodes = true) :
    (s.processWinner k p e w).1 = (t.processWinner k p e w).1 ∧
      Agree k events (s.processWinner k p e w).2 (t.processWinner k p e w).2 := by
  have hscreen := ha.screen (p := p) e w
  have hlast : s.mapPatriotnodesLastVote[w.vinPatriotnode.prevout]? = some w.nBlockHeight ↔
      t.mapPatriotnodesLastVote[w.vinPatriotnode.prevout]? = some w.nBlockHeight := by
    rcases ha.last w.vinPatriotnode.prevout with heq | hne
    · rw [heq]
    · obtain ⟨hs, ht⟩ := hne w.nBlockHeight ⟨e, w, List.mem_cons_self, hsigned, rfl, rfl⟩
      exact ⟨fun h => absurd h hs, fun h => absurd h ht⟩
  cases hres : s.screen k p e w with
  | some outcome =>
    rw [CPatriotnodePayments.processWinner, CPatriotnodePayments.processWinner, ← hscreen, hres]
    exact ⟨rfl, ha.tail⟩
  | none =>
    by_cases hvoted : s.mapPatriotnodesLastVote[w.vinPatriotnode.prevout]? = some w.nBlockHeight
    · rw [processWinner_of_voted hres hvoted, processWinner_of_voted (hscreen ▸ hres) (hlast.mp hvoted)]
      exact ⟨rfl, ha.tail⟩
    · rw [processWinner_of_signed ⟨hres, hvoted⟩ hsigned,
        processWinner_of_signed ⟨hscreen ▸ hres, fun h => hvoted (hlast.mpr h)⟩ hsigned]
      obtain ⟨hadded, hagree⟩ := (ha.tail.recorded w).addWinningPatriotnode e w
      exact ⟨by rw [hadded], hagree⟩

theorem step (ha : Agree k (event :: events) s t) (hsigned : event.signed k = true) :
    (s.handle k p event).1 = (t.handle k p event).1 ∧ Agree k events (s.handle k p event).2 (t.handle k p event).2 := by
  cases event with
  | PNWINNER e w =>
    obtain ⟨houtcome, hagree⟩ := ha.processWinner (p := p) hsigned
    exact ⟨congrArg some houtcome, hagree⟩
  | cleanPaymentList mnCount nHeight => exact ⟨rfl, ha.tail.cleanPaymentList mnCount nHeight⟩
  | reload => exact ⟨rfl, ha.votes, ha.blocks, fun _ => .inl rfl⟩

theorem step_forged (ha : Agree k (event :: events) s t) (hsigned : event.signed k = false)
    (hh : Harmless k p s (event :: events)) : Agree k events (s.handle k p event).2 t := by
  cases event with
  | cleanPaymentList mnCount nHeight => cases hsigned
  | reload => cases hsigned
  | PNWINNER e w =>
    show Agree k events (s.processWinner k p e w).2 t
    by_cases hrec : s.Records k p e w
    · rw [processWinner_of_forged hrec hsigned]
      refine ⟨ha.votes, ha.blocks, fun o => ?_⟩
      simp only [CPatriotnodePayments.recorded, FinMap.get_insert]
      by_cases ho : w.vinPatriotnode.prevout = o
      · refine .inr fun nBlockHeight hvotes => ?_
        subst ho
        obtain ⟨hne, hold⟩ := hh [] e w events rfl hsigned hrec nBlockHeight hvotes
        rw [if_pos rfl]
        refine ⟨fun h => hne (Option.some.inj h).symm, ?_⟩
        rcases ha.tail.last w.vinPatriotnode.prevout with heq | havoid
        · exact heq ▸ hold
        · exact (havoid nBlockHeight hvotes).2
      · rw [if_neg ho]
        exact ha.tail.last o
    · rw [processWinner_of_not_records hrec]
      exact ha.tail

/-- The run on all events and the one without the forged messages. -/
theorem run (ha : Agree k events s t) (hh : Harmless k p s events) :
    Agree (D := D) k [] (s.run k p events) (t.run k p (events.filter (PaymentsEvent.signed k))) ∧
      (s.outcomes k p events).filter (fun x => x.1.signed k) =
        t.outcomes k p (events.filter (PaymentsEvent.signed k)) := by
  induction events generalizing s t with
  | nil => exact ⟨ha, rfl⟩
  | cons event events ih =>
    cases hsigned : event.signed k with
    | true =>
      obtain ⟨houtcome, hagree⟩ := ha.step (p := p) hsigned
      obtain ⟨hrun, houtcomes⟩ := ih hagree hh.tail
      rw [List.filter_cons_of_pos hsigned]
      refine ⟨hrun, ?_⟩
      rw [outcomes, outcomes, List.filter_cons, if_pos hsigned, houtcome, houtcomes]
    | false =>
      obtain ⟨hrun, houtcomes⟩ := ih (ha.step_forged hsigned hh) hh.tail
      rw [List.filter_cons_of_neg (by simp [hsigned])]
      refine ⟨hrun, ?_⟩
      rw [outcomes, List.filter_cons_of_neg (by simp [hsigned]), houtcomes]

end Agree

end CPatriotnodePayments

variable (k p)

/-- **Forged winner messages have no influence**, where the nodes they name vote for neither of the heights that
`CanVote` records and forgets for them: the stored votes, their counts and the outcome of every other message are those
of the run without them. -/
theorem forged_winners_have_no_influence (s : CPatriotnodePayments) (events : List (PaymentsEvent D))
    (h : Harmless k p s events) :
    (s.run k p events).mapPatriotnodePayeeVotes =
      (s.run k p (events.filter (PaymentsEvent.signed k))).mapPatriotnodePayeeVotes ∧
    (s.run k p events).mapPatriotnodeBlocks =
      (s.run k p (events.filter (PaymentsEvent.signed k))).mapPatriotnodeBlocks ∧
    (s.outcomes k p events).filter (fun x => x.1.signed k) =
      s.outcomes k p (events.filter (PaymentsEvent.signed k)) := by
  obtain ⟨hagree, houtcomes⟩ := CPatriotnodePayments.Agree.run ⟨rfl, rfl, fun _ => .inl rfl⟩ h
  exact ⟨hagree.votes, hagree.blocks, houtcomes⟩

end Forged

namespace Sample

/-- A peer of a node at height 1000 that knows every outpoint as an enabled legacy node of rank 1. -/
def winnerEnv : WinnerEnv Bytes where
  find := fun _ => some ⟨0x51, true⟩
  nVersion := 1
  activeProtocol := 1
  bestHeight := 1000
  countEnabled := 10
  getPatriotnodeRank _ _ := 1

def winner (nBlockHeight : Int) (payee : CScript) (vchSig : Bytes) : PaymentsEvent Bytes :=
  .PNWINNER winnerEnv
    { vchSig := vchSig, vinPatriotnode := { prevout := ⟨1, 0⟩ }, nBlockHeight := nBlockHeight, payee := payee }

theorem harmless_forgery : Harmless messageCrypto CMainParams {} [winner 1001 [7] [], winner 1002 [7] [1]] := by
  intro pre e w post hsplit hsigned hrec nBlockHeight hvotes
  rcases pre with _ | ⟨x, _ | ⟨y, pre⟩⟩
  · rw [List.nil_append, List.cons.injEq] at hsplit
    obtain ⟨hw, rfl⟩ := hsplit
    obtain ⟨e', w', hmem, -, -, rfl⟩ := hvotes
    injection hw with _ hw
    injection List.mem_singleton.mp hmem with _ hw'
    subst hw hw'
    exact ⟨by decide, by decide +kernel⟩
  · rw [List.cons_append, List.nil_append, List.cons.injEq, List.cons.injEq] at hsplit
    injection hsplit.2.1 with he hw
    subst he hw
    exact absurd hsigned (by decide +kernel)
  · simp at hsplit

end Sample

open Sample

/-- A forged message, and a vote for another height. -/
theorem forged_winner_for_another_height :
    (CPatriotnodePayments.run messageCrypto CMainParams {}
      [winner 1001 [7] [], winner 1002 [7] [1]]).mapPatriotnodePayeeVotes =
    (CPatriotnodePayments.run messageCrypto CMainParams {}
      ([winner 1001 [7] [], winner 1002 [7] [1]].filter
        (PaymentsEvent.signed messageCrypto))).mapPatriotnodePayeeVotes :=
  (forged_winners_have_no_influence messageCrypto CMainParams {} _ harmless_forgery).1

/-- A forged message for height 1001, and then a vote of the same node for that height: the vote is rejected. -/
theorem forged_winner_blocks_vote :
    ((CPatriotnodePayments.outcomes messageCrypto CMainParams {}
      [winner 1001 [7] [], winner 1001 [7] [1]]).map Prod.snd =
        [some .badSignature, some .alreadyVoted]) ∧
    (CPatriotnodePayments.outcomes messageCrypto CMainParams {} [winner 1001 [7] [1]]).map Prod.snd =
        [some .added] := by
  decide +kernel

/-! ## Counted votes -/

namespace CPatriotnodePayments

def votesFor (s : CPatriotnodePayments) (nBlockHeight : Int) (payee : CScript) : List CPatriotnodePaymentWinner :=
  s.mapPatriotnodePayeeVotes.vals.filter fun w => decide (w.nBlockHeight = nBlockHeight ∧ w.payee = payee)

/-- The nodes with a stored vote for the payee at the height. -/
def voters (s : CPatriotnodePayments) (nBlockHeight : Int) (payee : CScript) : List COutPoint :=
  ((s.votesFor nBlockHeight payee).map fun w => w.vinPatriotnode.prevout).dedup

/-- The votes are stored under their hashes, and each payee of a height is listed once with its number of votes. -/
structure Tallied (k : MessageCrypto) (s : CPatriotnodePayments) : Prop where
  keyed : ∀ (hash : uint256) w, s.mapPatriotnodePayeeVotes[hash]? = some w → w.getHash k = hash
  payees : ∀ (nBlockHeight : Int) vecPayments, s.mapPatriotnodeBlocks[nBlockHeight]? = some vecPayments →
    (vecPayments.map CPatriotnodePayee.scriptPubKey).Nodup ∧ ∀ payee ∈ vecPayments,
      payee.nVotes = (s.votesFor nBlockHeight payee.scriptPubKey).length ∧ 0 < payee.nVotes
  listed : ∀ (hash : uint256) w, s.mapPatriotnodePayeeVotes[hash]? = some w →
    ∃ vecPayments, s.mapPatriotnodeBlocks[w.nBlockHeight]? = some vecPayments ∧
      w.payee ∈ vecPayments.map CPatriotnodePayee.scriptPubKey

section Count

variable {k : MessageCrypto} {s : CPatriotnodePayments} {w : CPatriotnodePaymentWinner} {nBlockHeight : Int}
  {payee : CScript}

theorem mem_votesFor : w ∈ s.votesFor nBlockHeight payee ↔
    (∃ hash : uint256, s.mapPatriotnodePayeeVotes[hash]? = some w) ∧ w.nBlockHeight = nBlockHeight ∧ w.payee = payee := by
  rw [votesFor, List.mem_filter, FinMap.mem_vals, decide_eq_true_eq]

/-- The hash covers the node, so each node is counted once. -/
theorem Tallied.length_voters (h : s.Tallied k) :
    (s.voters nBlockHeight payee).length = (s.votesFor nBlockHeight payee).length := by
  have hnodup : ((s.votesFor nBlockHeight payee).map fun w => w.vinPatriotnode.prevout).Nodup := by
    refine List.Nodup.map_on ?_ ((FinMap.nodup_vals h.keyed).filter _)
    intro w hw w' hw' heq
    obtain ⟨⟨hash, hget⟩, hheight, hpayee⟩ := mem_votesFor.mp hw
    obtain ⟨⟨hash', hget'⟩, hheight', hpayee'⟩ := mem_votesFor.mp hw'
    have hhash : hash = hash' := by
      rw [← h.keyed hash w hget, ← h.keyed hash' w' hget', CPatriotnodePaymentWinner.getHash,
        CPatriotnodePaymentWinner.getHash, hheight, hheight', hpayee, hpayee', heq]
    rw [hhash, hget'] at hget
    exact (Option.some.inj hget).symm
  rw [voters, List.dedup_eq_self.mpr hnodup, List.length_map]

end Count

end CPatriotnodePayments

namespace CPatriotnodeBlockPayees

variable {payee : CScript} {vec : List CPatriotnodePayee}

theorem map_addPayee (n : Int) : (addPayee payee n vec).map CPatriotnodePayee.scriptPubKey =
    if payee ∈ vec.map CPatriotnodePayee.scriptPubKey then vec.map CPatriotnodePayee.scriptPubKey
    else vec.map CPatriotnodePayee.scriptPubKey ++ [payee] := by
  induction vec with
  | nil => rfl
  | cons q vec ih =>
    unfold addPayee
    by_cases hq : q.scriptPubKey = payee
    · simp [hq]
    · simp only [if_neg hq, List.map_cons, ih, List.mem_cons, Ne.symm hq, false_or]
      split
      · rfl
      · rfl

theorem nodup_addPayee (n : Int) (h : (vec.map CPatriotnodePayee.scriptPubKey).Nodup) :
    ((addPayee payee n vec).map CPatriotnodePayee.scriptPubKey).Nodup := by
  rw [map_addPayee]
  split_ifs with hnot
  · exact h
  · exact List.nodup_append.mpr ⟨h, List.nodup_singleton payee, fun a ha b hb heq => by
      rw [List.mem_singleton.mp hb] at heq
      exact hnot (heq ▸ ha)⟩

theorem of_mem_addPayee {n : Int} {q : CPatriotnodePayee} (hnodup : (vec.map CPatriotnodePayee.scriptPubKey).Nodup)
    (h : q ∈ addPayee payee n vec) :
    (q.scriptPubKey ≠ payee ∧ q ∈ vec) ∨
    (q.scriptPubKey = payee ∧ ((payee ∉ vec.map CPatriotnodePayee.scriptPubKey ∧ q.nVotes = n) ∨
      ∃ r ∈ vec, r.scriptPubKey = payee ∧ q.nVotes = r.nVotes + n)) := by
  induction vec with
  | nil =>
    rw [addPayee, List.mem_singleton] at h
    subst h
    exact .inr ⟨rfl, .inl ⟨by simp, rfl⟩⟩
  | cons r vec ih =>
    rw [List.map_cons, List.nodup_cons] at hnodup
    unfold addPayee at h
    by_cases hr : r.scriptPubKey = payee
    · rw [if_pos hr, List.mem_cons] at h
      rcases h with rfl | hmem
      · exact .inr ⟨hr, .inr ⟨r, List.mem_cons_self, hr, rfl⟩⟩
      · refine .inl ⟨fun hq => hnodup.1 ?_, List.mem_cons_of_mem r hmem⟩
        rw [hr, ← hq]
        exact List.mem_map_of_mem hmem
    · rw [if_neg hr, List.mem_cons] at h
      rcases h with rfl | hmem
      · exact .inl ⟨hr, List.mem_cons_self⟩
      · rcases ih hnodup.2 hmem with ⟨hne, hmem⟩ | ⟨heq, ⟨hnot, hn⟩ | ⟨r', hmem', hr', hn⟩⟩
        · exact .inl ⟨hne, List.mem_cons_of_mem r hmem⟩
        · refine .inr ⟨heq, .inl ⟨?_, hn⟩⟩
          rw [List.map_cons, List.mem_cons, not_or]
          exact ⟨Ne.symm hr, hnot⟩
        · exact .inr ⟨heq, .inr ⟨r', List.mem_cons_of_mem r hmem', hr', hn⟩⟩

end CPatriotnodeBlockPayees

namespace CPatriotnodePayments

section Tally

variable {D : Type} [Digest D] {k : MessageCrypto} {p : CChainParams} {s : CPatriotnodePayments} {e : WinnerEnv D}
  {w : CPatriotnodePaymentWinner}

variable (s e w) in
theorem processWinner_cases : ((s.processWinner k p e w).2.mapPatriotnodePayeeVotes = s.mapPatriotnodePayeeVotes ∧
      (s.processWinner k p e w).2.mapPatriotnodeBlocks = s.mapPatriotnodeBlocks) ∨
    (s.Records k p e w ∧ w.signed k e.toSigningNodes = true ∧
      s.mapPatriotnodePayeeVotes[w.getHash k]? = none ∧
      (s.processWinner k p e w).2.mapPatriotnodePayeeVotes =
        s.mapPatriotnodePayeeVotes.insert (w.getHash k) w ∧
      (s.processWinner k p e w).2.mapPatriotnodeBlocks = s.mapPatriotnodeBlocks.insert w.nBlockHeight
        (CPatriotnodeBlockPayees.addPayee w.payee 1 ((s.mapPatriotnodeBlocks[w.nBlockHeight]?).getD []))) := by
  by_cases hrec : s.Records k p e w
  · cases hsigned : w.signed k e.toSigningNodes with
    | false =>
      rw [processWinner_of_forged hrec hsigned]
      exact .inl ⟨rfl, rfl⟩
    | true =>
      rw [processWinner_of_signed hrec hsigned]
      unfold addWinningPatriotnode
      split
      · exact .inl ⟨rfl, rfl⟩
      · split
        · exact .inl ⟨rfl, rfl⟩
        · rename_i hnew
          exact .inr ⟨hrec, rfl, Option.not_isSome_iff_eq_none.mp hnew, rfl, rfl⟩
  · rw [processWinner_of_not_records hrec]
    exact .inl ⟨rfl, rfl⟩

variable {t : CPatriotnodePayments}

theorem length_votesFor_insert {hash : uint256}
    (hnew : s.mapPatriotnodePayeeVotes[hash]? = none)
    (hvotes : t.mapPatriotnodePayeeVotes = s.mapPatriotnodePayeeVotes.insert hash w) (nBlockHeight : Int)
    (payee : CScript) : (t.votesFor nBlockHeight payee).length = (s.votesFor nBlockHeight payee).length +
      if w.nBlockHeight = nBlockHeight ∧ w.payee = payee then 1 else 0 := by
  have hperm : t.mapPatriotnodePayeeVotes.vals.Perm (w :: s.mapPatriotnodePayeeVotes.vals) := by
    rw [hvotes]
    exact (FinMap.toList_insert_perm w hnew).map Prod.snd
  unfold votesFor
  rw [(hperm.filter _).length_eq, List.filter_cons]
  by_cases hw : w.nBlockHeight = nBlockHeight ∧ w.payee = payee
  · simp [hw]
  · simp [hw]

theorem get_cleanPaymentList {mnCount nHeight : Int} {hash : uint256} :
    (s.cleanPaymentList mnCount nHeight).mapPatriotnodePayeeVotes[hash]? = some w ↔
      s.mapPatriotnodePayeeVotes[hash]? = some w ∧ outdated mnCount nHeight w = false := by
  rw [cleanPaymentList, Std.ExtTreeMap.getElem?_filter', Option.filter_eq_some_iff, Bool.not_eq_true']

theorem blocks_cleanPaymentList {mnCount nHeight nBlockHeight : Int} {vec : List CPatriotnodePayee} :
    (s.cleanPaymentList mnCount nHeight).mapPatriotnodeBlocks[nBlockHeight]? = some vec ↔
      s.mapPatriotnodeBlocks[nBlockHeight]? = some vec ∧
      ∀ (hash : uint256) v, s.mapPatriotnodePayeeVotes[hash]? = some v → v.nBlockHeight = nBlockHeight →
        outdated mnCount nHeight v = false := by
  rw [cleanPaymentList, FinMap.get_foldl_erase CPatriotnodePaymentWinner.nBlockHeight, ite_eq_iff]
  simp only [reduceCtorEq, and_false, false_or, and_comm (b := _ = some vec), List.mem_map, not_exists, not_and]
  refine and_congr_right fun _ => ⟨fun h hash v hget heq => ?_, fun h v hv heq => ?_⟩
  · by_contra hout
    exact h v (List.mem_filter.mpr ⟨FinMap.mem_vals.mpr ⟨hash, hget⟩, Bool.not_eq_false _ ▸ hout⟩) heq
  · obtain ⟨hmem, hout⟩ := List.mem_filter.mp hv
    obtain ⟨hash, hget⟩ := FinMap.mem_vals.mp hmem
    cases (h hash v hget heq).symm.trans hout

theorem votesFor_cleanPaymentList {mnCount nHeight nBlockHeight : Int} {payee : CScript}
    (h : ∀ (hash : uint256) v, s.mapPatriotnodePayeeVotes[hash]? = some v → v.nBlockHeight = nBlockHeight →
      outdated mnCount nHeight v = false) :
    (s.cleanPaymentList mnCount nHeight).votesFor nBlockHeight payee = s.votesFor nBlockHeight payee := by
  have hvals : (s.cleanPaymentList mnCount nHeight).mapPatriotnodePayeeVotes.vals =
      s.mapPatriotnodePayeeVotes.vals.filter fun v => !outdated mnCount nHeight v := by
    rw [cleanPaymentList, FinMap.vals, Std.ExtTreeMap.toList_filter, FinMap.vals, List.filter_map]
    rfl
  rw [votesFor, votesFor, hvals, List.filter_filter]
  refine List.filter_congr fun v hv => ?_
  obtain ⟨hash, hget⟩ := FinMap.mem_vals.mp hv
  by_cases hheight : v.nBlockHeight = nBlockHeight
  · rw [h hash v hget hheight, Bool.not_false, Bool.and_true]
  · simp [hheight]

namespace Tallied

theorem empty : Tallied k {} where
  keyed := FinMap.forall_empty
  payees := FinMap.forall_empty
  listed := FinMap.forall_empty

variable (h : s.Tallied k)
include h

theorem congr
    (hvotes : t.mapPatriotnodePayeeVotes = s.mapPatriotnodePayeeVotes)
    (hblocks : t.mapPatriotnodeBlocks = s.mapPatriotnodeBlocks) : t.Tallied k where
  keyed := by rw [hvotes]; exact h.keyed
  payees := by unfold votesFor; rw [hblocks, hvotes]; exact h.payees
  listed := by rw [hvotes, hblocks]; exact h.listed

theorem insert
    (hnew : s.mapPatriotnodePayeeVotes[w.getHash k]? = none)
    (hvotes : t.mapPatriotnodePayeeVotes = s.mapPatriotnodePayeeVotes.insert (w.getHash k) w)
    (hblocks : t.mapPatriotnodeBlocks = s.mapPatriotnodeBlocks.insert w.nBlockHeight
      (CPatriotnodeBlockPayees.addPayee w.payee 1 ((s.mapPatriotnodeBlocks[w.nBlockHeight]?).getD []))) :
    t.Tallied k := by
  have hcount := length_votesFor_insert (t := t) hnew hvotes
  -- the entries of the height before the vote
  have hold : (((s.mapPatriotnodeBlocks[w.nBlockHeight]?).getD []).map CPatriotnodePayee.scriptPubKey).Nodup ∧
      ∀ payee ∈ (s.mapPatriotnodeBlocks[w.nBlockHeight]?).getD [],
        payee.nVotes = (s.votesFor w.nBlockHeight payee.scriptPubKey).length ∧ 0 < payee.nVotes := by
    cases hget : s.mapPatriotnodeBlocks[w.nBlockHeight]? with
    | none => exact ⟨List.nodup_nil, fun payee hmem => absurd hmem List.not_mem_nil⟩
    | some vec => exact h.payees w.nBlockHeight vec hget
  -- a payee that is not listed has no votes
  have hunlisted : w.payee ∉ ((s.mapPatriotnodeBlocks[w.nBlockHeight]?).getD []).map CPatriotnodePayee.scriptPubKey →
      (s.votesFor w.nBlockHeight w.payee).length = 0 := by
    intro hnot
    rw [List.length_eq_zero_iff, List.eq_nil_iff_forall_not_mem]
    intro v hv
    obtain ⟨⟨hash, hget⟩, hheight, hpayee⟩ := mem_votesFor.mp hv
    obtain ⟨vec, hvec, hmem⟩ := h.listed hash v hget
    rw [hheight] at hvec
    rw [hvec, ← hpayee] at hnot
    exact hnot hmem
  refine ⟨?_, fun nBlockHeight vec hget => ?_, fun hash v hget => ?_⟩
  · rw [hvotes]
    exact FinMap.forall_insert h.keyed rfl
  · rw [hblocks, FinMap.get_insert] at hget
    split_ifs at hget with heq
    · subst heq
      cases hget
      refine ⟨CPatriotnodeBlockPayees.nodup_addPayee 1 hold.1, fun payee hmem => ?_⟩
      rw [hcount]
      rcases CPatriotnodeBlockPayees.of_mem_addPayee hold.1 hmem with ⟨hne, hmem⟩ | ⟨heq, ⟨hnot, hn⟩ | ⟨r, hmem, hr, hn⟩⟩
      · rw [if_neg fun hand => hne hand.2.symm, Nat.add_zero]
        exact hold.2 payee hmem
      · rw [heq, hunlisted hnot, hn]
        simp
      · obtain ⟨hrn, hpos⟩ := hold.2 r hmem
        rw [hr] at hrn
        rw [heq, if_pos ⟨rfl, rfl⟩, hn]
        omega
    · obtain ⟨hnodup, hpayees⟩ := h.payees nBlockHeight vec hget
      refine ⟨hnodup, fun payee hmem => ?_⟩
      rw [hcount, if_neg fun hand => heq hand.1, Nat.add_zero]
      exact hpayees payee hmem
  · rw [hblocks]
    rw [hvotes, FinMap.get_insert] at hget
    by_cases hheight : w.nBlockHeight = v.nBlockHeight
    · rw [← hheight, FinMap.get_insert_self]
      refine ⟨_, rfl, ?_⟩
      rw [CPatriotnodeBlockPayees.map_addPayee]
      split at hget
      · cases hget
        split
        · assumption
        · simp
      · obtain ⟨vec, hvec, hmem⟩ := h.listed hash v hget
        rw [hheight, hvec, Option.getD_some]
        split
        · exact hmem
        · exact List.mem_append_left _ hmem
    · rw [FinMap.get_insert_ne _ _ hheight]
      split at hget
      · cases hget
        exact absurd rfl hheight
      · exact h.listed hash v hget

theorem processWinner (e : WinnerEnv D) (w : CPatriotnodePaymentWinner) : (s.processWinner k p e w).2.Tallied k := by
  rcases processWinner_cases (k := k) (p := p) s e w with ⟨hvotes, hblocks⟩ | ⟨-, -, hnew, hvotes, hblocks⟩
  · exact h.congr hvotes hblocks
  · exact h.insert hnew hvotes hblocks

/-- The clean-up removes the votes of a height together, and with them the counts. -/
theorem cleanPaymentList (mnCount nHeight : Int) : (s.cleanPaymentList mnCount nHeight).Tallied k := by
  refine ⟨fun hash v hget => ?_, fun nBlockHeight vec hget => ?_, fun hash v hget => ?_⟩
  · exact h.keyed hash v (get_cleanPaymentList.mp hget).1
  · obtain ⟨hget, hkept⟩ := blocks_cleanPaymentList.mp hget
    obtain ⟨hnodup, hpayees⟩ := h.payees nBlockHeight vec hget
    refine ⟨hnodup, fun payee hmem => ?_⟩
    rw [votesFor_cleanPaymentList hkept]
    exact hpayees payee hmem
  · obtain ⟨hget, hkeep⟩ := get_cleanPaymentList.mp hget
    obtain ⟨vec, hvec, hmem⟩ := h.listed hash v hget
    refine ⟨vec, blocks_cleanPaymentList.mpr ⟨hvec, fun hash' v' _ heq => ?_⟩, hmem⟩
    unfold outdated
    rw [heq]
    exact hkeep

theorem handle (event : PaymentsEvent D) : (s.handle k p event).2.Tallied k := by
  cases event with
  | PNWINNER e w => exact h.processWinner e w
  | cleanPaymentList mnCount nHeight => exact h.cleanPaymentList mnCount nHeight
  | reload => exact h.congr rfl rfl

theorem run (events : List (PaymentsEvent D)) : (s.run k p events).Tallied k := by
  induction events generalizing s with
  | nil => exact h
  | cons event events ih => exact ih (h.handle event)

end Tallied

end Tally

/-! ## One vote for each node and height -/

section OneVote

variable {D : Type} [Digest D] (k : MessageCrypto) (p : CChainParams)

def OneVote (s : CPatriotnodePayments) : Prop :=
  ∀ (hash hash' : uint256) v v', s.mapPatriotnodePayeeVotes[hash]? = some v →
    s.mapPatriotnodePayeeVotes[hash']? = some v' → v.vinPatriotnode.prevout = v'.vinPatriotnode.prevout →
    v.nBlockHeight = v'.nBlockHeight → hash = hash'

/-- Where a vote of the node for the height is stored, that height is the one remembered for the node. -/
def Remembers (s : CPatriotnodePayments) (w : CPatriotnodePaymentWinner) : Prop :=
  ∀ (hash : uint256) v, s.mapPatriotnodePayeeVotes[hash]? = some v →
    v.vinPatriotnode.prevout = w.vinPatriotnode.prevout → v.nBlockHeight = w.nBlockHeight →
    s.mapPatriotnodesLastVote[w.vinPatriotnode.prevout]? = some w.nBlockHeight

/-- The height of every new message with a good signature is still remembered if its node has voted for it. -/
def Remembering (events : List (PaymentsEvent D)) : Prop :=
  ∀ pre e w post, events = pre ++ .PNWINNER e w :: post → (run k p {} pre).screen k p e w = none →
    w.signed k e.toSigningNodes = true → (run k p {} pre).Remembers w

variable {k p} {s : CPatriotnodePayments} {event : PaymentsEvent D}

theorem OneVote.mono {t : CPatriotnodePayments} (h : s.OneVote)
    (hle : ∀ (hash : uint256) v, t.mapPatriotnodePayeeVotes[hash]? = some v →
      s.mapPatriotnodePayeeVotes[hash]? = some v) : t.OneVote :=
  fun hash hash' v v' hv hv' => h hash hash' v v' (hle hash v hv) (hle hash' v' hv')

theorem OneVote.handle (h : s.OneVote) (hrem : ∀ e w, event = .PNWINNER e w → s.screen k p e w = none →
    w.signed k e.toSigningNodes = true → s.Remembers w) : (s.handle k p event).2.OneVote := by
  cases event with
  | cleanPaymentList mnCount nHeight => exact h.mono fun hash v hget => (get_cleanPaymentList.mp hget).1
  | reload => exact h
  | PNWINNER e w =>
    show (s.processWinner k p e w).2.OneVote
    rcases processWinner_cases (k := k) (p := p) s e w with ⟨hvotes, -⟩ | ⟨hrec, hsigned, -, hvotes, -⟩
    · exact h.mono fun hash v hget => hvotes ▸ hget
    · have hrem := hrem e w rfl hrec.1 hsigned
      intro hash hash' v v' hv hv' hnode hheight
      rw [hvotes, FinMap.get_insert] at hv hv'
      split_ifs at hv with heq
      · cases hv
        split at hv'
        · rename_i heq'
          rw [← heq, heq']
        · exact absurd (hrem hash' v' hv' hnode.symm hheight.symm) hrec.2
      · split at hv'
        · cases hv'
          exact absurd (hrem hash v hv hnode hheight) hrec.2
        · exact h hash hash' v v' hv hv' hnode hheight

theorem Remembering.oneVote {events : List (PaymentsEvent D)} (h : Remembering k p events) :
    (run k p {} events).OneVote := by
  induction events using List.reverseRecOn with
  | nil =>
    intro hash hash' v v' hv
    rw [show (run k p {} ([] : List (PaymentsEvent D))).mapPatriotnodePayeeVotes[hash]? = none from FinMap.get_empty hash]
      at hv
    cases hv
  | append_singleton events event ih =>
    have hinit : Remembering k p events := fun pre e w post hsplit =>
      h pre e w (post ++ [event]) (by rw [hsplit, List.append_assoc, List.cons_append])
    rw [run, List.foldl_append]
    exact (ih hinit).handle fun e w hevent => h events e w [] (by rw [hevent])

variable (k p)

/-- **Counted votes and one vote for each node.** In every run from the start each payee is listed with the number of
nodes whose stored vote names it, and where the height of each new vote is remembered if its node has voted for it, no
node has two votes for one height. -/
theorem one_vote_per_node_and_height (events : List (PaymentsEvent D)) :
    (∀ (nBlockHeight : Int) vecPayments,
      (run k p {} events).mapPatriotnodeBlocks[nBlockHeight]? = some vecPayments → ∀ payee ∈ vecPayments,
        payee.nVotes = ((run k p {} events).voters nBlockHeight payee.scriptPubKey).length) ∧
    (∀ (hash : uint256) w, (run k p {} events).mapPatriotnodePayeeVotes[hash]? = some w →
      ∃ vecPayments, (run k p {} events).mapPatriotnodeBlocks[w.nBlockHeight]? = some vecPayments ∧
        w.payee ∈ vecPayments.map CPatriotnodePayee.scriptPubKey) ∧
    (Remembering k p events → (run k p {} events).OneVote) := by
  have htally : (run k p {} events).Tallied k := Tallied.empty.run events
  refine ⟨fun nBlockHeight vec hget payee hmem => ?_, htally.listed, Remembering.oneVote⟩
  rw [htally.length_voters]
  exact ((htally.payees nBlockHeight vec hget).2 payee hmem).1

end OneVote

end CPatriotnodePayments

namespace Sample

theorem remembering_of_two :
    CPatriotnodePayments.Remembering messageCrypto CMainParams [winner 1001 [7] [1], winner 1002 [8] [1]] := by
  intro pre e w post hsplit _ _ hash v hget _ hheight
  rcases pre with _ | ⟨x, _ | ⟨y, pre⟩⟩
  · rw [show (CPatriotnodePayments.run messageCrypto CMainParams {} ([] : List (PaymentsEvent Bytes))
      ).mapPatriotnodePayeeVotes[hash]? = none from FinMap.get_empty hash] at hget
    cases hget
  · rw [List.cons_append, List.nil_append, List.cons.injEq, List.cons.injEq] at hsplit
    obtain ⟨rfl, hw, -⟩ := hsplit
    injection hw with _ hw
    subst hw
    have hstored : ∀ v ∈ (CPatriotnodePayments.run messageCrypto CMainParams {} [winner 1001 [7] [1]]
        ).mapPatriotnodePayeeVotes.vals, v.nBlockHeight = 1001 := by
      decide +kernel
    exact absurd ((hstored v (FinMap.mem_vals.mpr ⟨hash, hget⟩)).symm.trans hheight) (by decide)
  · simp at hsplit

end Sample

theorem one_vote_sample : (CPatriotnodePayments.run messageCrypto CMainParams {}
    [winner 1001 [7] [1], winner 1002 [8] [1]]).OneVote :=
  (CPatriotnodePayments.one_vote_per_node_and_height messageCrypto CMainParams _).2.2 remembering_of_two

/-- A node votes for height 1001, then for 1002, then for 1001 with another payee: it has two votes for 1001. -/
theorem two_votes_for_one_height :
    (CPatriotnodePayments.outcomes messageCrypto CMainParams {}
      [winner 1001 [7] [1], winner 1002 [7] [1], winner 1001 [8] [1]]).map Prod.snd =
        [some .added, some .added, some .added] ∧
    ((CPatriotnodePayments.run messageCrypto CMainParams {}
      [winner 1001 [7] [1], winner 1002 [7] [1], winner 1001 [8] [1]]
      ).mapPatriotnodePayeeVotes.vals.map fun w => (w.vinPatriotnode.prevout, w.nBlockHeight)).count (⟨1, 0⟩, 1001) = 2 := by
  decide +kernel

end TrumpCoin
