import TrumpCoin.Patriotnodes.Manager

/-!
# Broadcasts of patriotnodes

What the handling of a broadcast does to the manager, and which broadcasts can do anything at all. No check verifies
the signature of a broadcast.

* `WellFormed`, `Screened`, `screen_eq_none`: what the first checks of a broadcast establish;
* `takes_effect`: every well-formed broadcast replaces the node of its collateral in some manager;
* `unauthenticated_without_influence`: when unauthenticated broadcasts can be left out of a run.
-/

namespace TrumpCoin

open Lib

namespace CPatriotnodeMan

variable {k : NodeCrypto} {p : CChainParams} {e : ManEnv} {s s' : CPatriotnodeMan} {mnb : CPatriotnodeBroadcast}

/-! ## The check of a ping that comes with a broadcast -/

variable (k p e) in
/-- The result of the check of a ping for its time only, given the node it names. -/
def pingVerdict (found : Option CPatriotnode) (ping : CPatriotnodePing) (nChainHeight : Int) : Bool × Int :=
  if e.getMaxTimeWindow p nChainHeight < ping.sigTime then (false, 30)
  else if e.isWithinDepth ping.blockHash (2 * PNPING_DEPTH) = false then (false, 33)
  else if found.all (fun pmn => ping.checkSignature k (k.getID pmn.pubKeyPatriotnode)) then (true, 0)
  else (false, 33)

/-- The check for the time leaves the manager as it is, and reads only the node that the ping names. -/
theorem pingCheckAndUpdate_only (ping : CPatriotnodePing) (h : Int) :
    s.pingCheckAndUpdate k p e ping 0 h false true =
      ((pingVerdict k p e (s.find ping.vin.prevout) ping h).1,
        (pingVerdict k p e (s.find ping.vin.prevout) ping h).2, s) := by
  unfold pingCheckAndUpdate pingVerdict
  cases s.find ping.vin.prevout with
  | none => split_ifs <;> simp_all
  | some pmn => split_ifs <;> simp_all

variable {h : Int} {pmn : CPatriotnode} {m : ManMessage}

theorem pingVerdict_iff {found : Option CPatriotnode} {ping : CPatriotnodePing} :
    (pingVerdict k p e found ping h).1 = true ↔ ping.sigTime ≤ e.getMaxTimeWindow p h ∧
      e.isWithinDepth ping.blockHash (2 * PNPING_DEPTH) = true ∧
      ∀ pmn, found = some pmn → ping.checkSignature k (k.getID pmn.pubKeyPatriotnode) = true := by
  unfold pingVerdict
  split_ifs with htime hdepth hsig
  · simp [htime]
  · simp [hdepth]
  · cases found <;> simp_all
  · cases found <;> simp_all

/-- What the first checks establish about a broadcast by itself. -/
structure WellFormed (p : CChainParams) (e : ManEnv) (mnb : CPatriotnodeBroadcast) (h : Int) : Prop where
  sigTime : mnb.sigTime ≤ e.getMaxTimeWindow p h
  protocolVersion : e.activeProtocol ≤ mnb.protocolVersion
  scriptSig : mnb.vin.scriptSig = []
  port : mnb.addr.getPort = mainnetDefaultPort ↔ p.networkID = .MAIN
  ping : mnb.lastPing.isNull = false
  pingTime : mnb.lastPing.sigTime ≤ e.getMaxTimeWindow p h
  pingDepth : e.isWithinDepth mnb.lastPing.blockHash (2 * PNPING_DEPTH) = true

/-- What the first checks of a broadcast establish: the ping is verified only if it names a known node. -/
structure Screened (k : NodeCrypto) (p : CChainParams) (e : ManEnv) (s : CPatriotnodeMan)
    (mnb : CPatriotnodeBroadcast) (h : Int) : Prop extends WellFormed p e mnb h where
  pingSigned : ∀ pmn, s.find mnb.lastPing.vin.prevout = some pmn →
    mnb.lastPing.checkSignature k (k.getID pmn.pubKeyPatriotnode) = true

theorem screen_eq_none : s.screen k p e mnb h = none ↔ Screened k p e s mnb h := by
  unfold screen
  rw [pingCheckAndUpdate_only]
  constructor
  · intro hnone
    split_ifs at hnone with h1 h2 h3 h4 h5 h6
    have hverdict : (pingVerdict k p e (s.find mnb.lastPing.vin.prevout) mnb.lastPing h).1 = true := by
      revert hnone
      cases (pingVerdict k p e (s.find mnb.lastPing.vin.prevout) mnb.lastPing h).1 <;> simp
    obtain ⟨htime, hdepth, hsig⟩ := pingVerdict_iff.mp hverdict
    exact ⟨⟨Int64.not_lt.mp h1, by omega, by simpa using h3, by tauto, by simpa using h6, htime, hdepth⟩, hsig⟩
  · rintro ⟨⟨h1, h2, h3, h4, h6, htime, hdepth⟩, hsig⟩
    have hverdict := pingVerdict_iff.mpr ⟨htime, hdepth, hsig⟩
    rw [if_neg (Int64.not_lt.mpr h1), if_neg (by omega), if_neg (by simpa using h3), if_neg (by tauto), if_neg (by tauto),
      if_neg (by simp [h6]), hverdict]

/-! ## What a broadcast changes -/

variable (k s mnb) in
def recordSeen : CPatriotnodeMan :=
  { s with mapSeenPatriotnodeBroadcast := s.mapSeenPatriotnodeBroadcast.emplace (mnb.getHash k) mnb }

theorem seen_eq_false : s.seen k mnb = false ↔ s.mapSeenPatriotnodeBroadcast[mnb.getHash k]? = none := by
  rw [seen, Option.isSome_eq_false_iff, Option.isNone_iff_eq_none]

theorem seen_recordSeen (mnb : CPatriotnodeBroadcast) : (recordSeen k s mnb).seen k mnb = true := by
  unfold seen recordSeen FinMap.emplace
  split
  · assumption
  · simp

variable (p e mnb) in
/-- The address is of the first format or the second is in use. -/
def addrAllowed : Bool :=
  mnb.addr.isAddrV1Compatible || p.networkUpgradeActive e.bestHeight .UPGRADE_V5_3

theorem processPNBroadcast_of_seen (h : s.seen k mnb = true) : s.processPNBroadcast k p e mnb = (.seen, s) := by
  unfold processPNBroadcast
  rw [if_pos h]

theorem processPNBroadcast_of_error {d : Int} (hseen : s.seen k mnb = false) (haddr : addrAllowed p e mnb = true)
    (h : s.checkAndUpdate k p e mnb e.bestHeight = .error d) : s.processPNBroadcast k p e mnb = (.refused d, s) := by
  unfold processPNBroadcast
  rw [if_neg (by simp [hseen]), if_neg, h]
  simpa [addrAllowed, or_iff_not_imp_left] using haddr

theorem processPNBroadcast_of_ok (hseen : s.seen k mnb = false) (haddr : addrAllowed p e mnb = true)
    (h : s.checkAndUpdate k p e mnb e.bestHeight = .ok s') :
    s.processPNBroadcast k p e mnb = if mnb.isInputAssociatedWithPubkey k p e = false then (.mismatched, s')
      else (recordSeen k s' mnb).checkInputsAndAdd k p e mnb e.bestHeight := by
  unfold processPNBroadcast
  rw [if_neg (by simp [hseen]), if_neg, h]
  · rfl
  · simpa [addrAllowed, or_iff_not_imp_left] using haddr

theorem processPNBroadcast_of_addr (hseen : s.seen k mnb = false) (haddr : addrAllowed p e mnb = false) :
    s.processPNBroadcast k p e mnb = (.addrV2, s) := by
  unfold processPNBroadcast
  rw [if_neg (by simp [hseen]), if_pos]
  simpa [addrAllowed] using haddr

variable (hs : Screened k p e s mnb e.bestHeight)
include hs

theorem Screened.recordSeen : Screened k p e (recordSeen k s mnb) mnb e.bestHeight :=
  ⟨hs.toWellFormed, hs.pingSigned⟩

/-- The ping of a broadcast that passed the first checks passes again. -/
theorem Screened.checkInputsAndAdd_of_absent (habsent : s.find mnb.vin.prevout = none) :
    s.checkInputsAndAdd k p e mnb e.bestHeight = s.addWithInputs k p e mnb e.bestHeight := by
  unfold checkInputsAndAdd
  rw [pingCheckAndUpdate_only, pingVerdict_iff.mpr ⟨hs.pingTime, hs.pingDepth, hs.pingSigned⟩,
    if_neg (by simp [hs.ping]), habsent]

omit hs

/-! The first checks, by the node of the collateral. -/

theorem checkAndUpdate_of_found (hs : Screened k p e s mnb h) (hfind : s.find mnb.vin.prevout = some pmn) :
    s.checkAndUpdate k p e mnb h = if mnb.sigTime ≤ pmn.sigTime then .error 0
      else if takesOver p e pmn mnb then .ok (s.updateFromNewBroadcast k p e pmn mnb h) else .ok s := by
  rw [checkAndUpdate, screen_eq_none.mpr hs, hfind]

theorem processPNBroadcast_of_absent (hseen : s.seen k mnb = false) (haddr : addrAllowed p e mnb = true)
    (hs : Screened k p e s mnb e.bestHeight) (habsent : s.find mnb.vin.prevout = none) :
    s.processPNBroadcast k p e mnb = if mnb.isInputAssociatedWithPubkey k p e = false then (.mismatched, s)
      else (recordSeen k s mnb).addWithInputs k p e mnb e.bestHeight := by
  rw [processPNBroadcast_of_ok hseen haddr (by rw [checkAndUpdate, screen_eq_none.mpr hs, habsent]),
    hs.recordSeen.checkInputsAndAdd_of_absent habsent]

theorem erase_recordSeen (hseen : s.seen k mnb = false) :
    { recordSeen k s mnb with mapSeenPatriotnodeBroadcast :=
        (recordSeen k s mnb).mapSeenPatriotnodeBroadcast.erase (mnb.getHash k) } = s := by
  unfold recordSeen
  rw [seen_eq_false] at hseen
  simp only [FinMap.emplace_erase_self, FinMap.erase_of_absent hseen]

variable (k p e s mnb) in
/-- How the checks of the collateral end. -/
theorem addWithInputs_cases : s.addWithInputs k p e mnb e.bestHeight = (.refused 0,
        { s with mapSeenPatriotnodeBroadcast := s.mapSeenPatriotnodeBroadcast.erase (mnb.getHash k) }) ∨
      (∃ out, out ≠ .added ∧ s.addWithInputs k p e mnb e.bestHeight = (out, s)) ∨
      s.addWithInputs k p e mnb e.bestHeight =
        (.added, s.setNode mnb.vin.prevout { toCPatriotnodeBroadcast := mnb }) := by
  unfold addWithInputs add
  cases e.accessCoin mnb.vin.prevout with
  | none => exact .inr (.inl ⟨_, by simp, rfl⟩)
  | some coin =>
    dsimp only
    split_ifs
    all_goals first | exact .inl rfl | exact .inr (.inr rfl) | exact .inr (.inl ⟨_, by simp, rfl⟩)

/-- The broadcast is new and passes the checks that come before the node of its collateral is looked up. -/
structure Considered (k : NodeCrypto) (p : CChainParams) (e : ManEnv) (s : CPatriotnodeMan)
    (mnb : CPatriotnodeBroadcast) : Prop where
  new : s.seen k mnb = false
  addr : addrAllowed p e mnb = true
  screened : Screened k p e s mnb e.bestHeight

variable (k p e s mnb) in
theorem considered_or : Considered k p e s mnb ∨
      (s.processPNBroadcast k p e mnb).2 = s ∧ (s.processPNBroadcast k p e mnb).1 ≠ .added := by
  cases hseen : s.seen k mnb with
  | true => exact .inr (by simp [processPNBroadcast_of_seen hseen])
  | false =>
  cases haddr : addrAllowed p e mnb with
  | false => exact .inr (by simp [processPNBroadcast_of_addr hseen haddr])
  | true =>
  cases hscreen : s.screen k p e mnb e.bestHeight with
  | some d =>
    have hrefused : s.checkAndUpdate k p e mnb e.bestHeight = .error d := by rw [checkAndUpdate, hscreen]
    exact .inr (by simp [processPNBroadcast_of_error hseen haddr hrefused])
  | none => exact .inl ⟨hseen, haddr, screen_eq_none.mp hscreen⟩

/-! ## The node of the collateral after a broadcast -/

theorem find_setNode (o o' : COutPoint) (mn : CPatriotnode) :
    (s.setNode o mn).find o' = if o = o' then some mn else s.find o' := FinMap.get_insert ..

theorem find_remove (o o' : COutPoint) : (s.remove o).find o' = if o = o' then none else s.find o' :=
  FinMap.get_erase ..

theorem find_recordPing (pmn : CPatriotnode) (ping : CPatriotnodePing) (o : COutPoint) :
    (s.recordPing k pmn ping).find o =
      if ping.vin.prevout = o then some { pmn with lastPing := ping } else s.find o := FinMap.get_insert ..

theorem pingCheckAndUpdate_cases (ping : CPatriotnodePing) (d h : Int) (f g : Bool) :
    (s.pingCheckAndUpdate k p e ping d h f g).2.2 = s ∨ ∃ pmn, s.find ping.vin.prevout = some pmn ∧
      (s.pingCheckAndUpdate k p e ping d h f g).2.2 = s.recordPing k pmn ping := by
  unfold pingCheckAndUpdate
  cases hfind : s.find ping.vin.prevout with
  | none =>
    split_ifs
    all_goals exact .inl rfl
  | some pmn =>
    dsimp only
    split_ifs
    all_goals first | exact .inl rfl | exact .inr ⟨pmn, rfl, rfl⟩

variable (s mnb) in
/-- The node of the broadcast's collateral, if there is one, has the time of the broadcast. -/
def Renewed : Prop :=
  ∀ mn, s.find mnb.vin.prevout = some mn → mn.sigTime = mnb.sigTime

theorem Renewed.setNode {mn : CPatriotnode} (hmn : mn.sigTime = mnb.sigTime) :
    Renewed (s.setNode mnb.vin.prevout mn) mnb := by
  intro mn' h
  rw [find_setNode, if_pos rfl] at h
  cases h
  exact hmn

theorem Renewed.remove (h : Renewed s mnb) (o : COutPoint) : Renewed (s.remove o) mnb := by
  intro mn hmn
  rw [find_remove] at hmn
  split at hmn
  · cases hmn
  · exact h mn hmn

theorem Renewed.ping (h : Renewed s mnb) (ping : CPatriotnodePing) (d t : Int) (f g : Bool) :
    Renewed (s.pingCheckAndUpdate k p e ping d t f g).2.2 mnb := by
  rcases pingCheckAndUpdate_cases (k := k) (p := p) (e := e) (s := s) ping d t f g with heq | ⟨pmn, hfind, heq⟩
  · rwa [heq]
  · intro mn hmn
    rw [heq, find_recordPing] at hmn
    split_ifs at hmn with ho
    · cases hmn
      exact h pmn (ho ▸ hfind)
    · exact h mn hmn

theorem Renewed.addWithInputs (h : Renewed s mnb) : Renewed (s.addWithInputs k p e mnb e.bestHeight).2 mnb := by
  rcases addWithInputs_cases k p e s mnb with heq | ⟨out, -, heq⟩ | heq <;> rw [heq]
  · exact h
  · exact h
  · exact Renewed.setNode rfl

variable (k p e s mnb) in
/-- The inputs are checked with the node of the collateral there or removed. -/
theorem checkInputsAndAdd_cases (t : Int) :
    (∃ out, out ≠ .added ∧ s.checkInputsAndAdd k p e mnb t = (out, s)) ∨ ∃ s1, (s1 = s ∨ ∃ o, s1 = s.remove o) ∧
      s.checkInputsAndAdd k p e mnb t = s1.addWithInputs k p e mnb t := by
  unfold checkInputsAndAdd
  rw [pingCheckAndUpdate_only]
  split
  · exact .inl ⟨_, by simp, rfl⟩
  · cases (pingVerdict k p e (s.find mnb.lastPing.vin.prevout) mnb.lastPing t).1 with
    | false => exact .inl ⟨_, by simp, rfl⟩
    | true =>
      cases hfind : s.find mnb.vin.prevout with
      | none => exact .inr ⟨s, .inl rfl, rfl⟩
      | some pmn =>
        dsimp only
        split
        · exact .inl ⟨_, by simp, rfl⟩
        · exact .inr ⟨_, .inr ⟨_, rfl⟩, rfl⟩

theorem Renewed.checkInputsAndAdd (h : Renewed s mnb) :
    Renewed (s.checkInputsAndAdd k p e mnb e.bestHeight).2 mnb := by
  rcases checkInputsAndAdd_cases k p e s mnb e.bestHeight with ⟨out, -, heq⟩ | ⟨s1, rfl | ⟨o, rfl⟩, heq⟩ <;> rw [heq]
  · exact h
  · exact h.addWithInputs
  · exact (h.remove o).addWithInputs

theorem renewed_updateFromNewBroadcast {t : Int} (htime : pmn.sigTime < mnb.sigTime) :
    Renewed (s.updateFromNewBroadcast k p e pmn mnb t) mnb := by
  unfold updateFromNewBroadcast
  rw [if_pos htime]
  dsimp only
  generalize hs1 : s.setNode mnb.vin.prevout _ = s1
  have h1 : Renewed s1 mnb := hs1 ▸ Renewed.setNode rfl
  generalize hr : (if mnb.lastPing.isNull = true then (true, (0 : Int), s1)
    else s1.pingCheckAndUpdate k p e mnb.lastPing 0 t false false) = r
  have h2 : Renewed r.2.2 mnb := by
    rw [← hr]
    split
    · exact h1
    · exact h1.ping _ _ _ _ _
  split
  · rename_i mn _ hfind
    exact Renewed.setNode (h2 mn hfind)
  · exact h2

/-- A node that is taken over is gone or has the time of the broadcast. -/
theorem Considered.renewed (hc : Considered k p e s mnb) (hfind : s.find mnb.vin.prevout = some pmn)
    (htime : pmn.sigTime < mnb.sigTime) (htakes : takesOver p e pmn mnb = true) :
    Renewed (s.processPNBroadcast k p e mnb).2 mnb := by
  have hcheck := checkAndUpdate_of_found hc.screened hfind
  rw [if_neg (Int64.not_le.mpr htime), htakes, if_pos rfl] at hcheck
  rw [processPNBroadcast_of_ok hc.new hc.addr hcheck]
  have hupdate := renewed_updateFromNewBroadcast (k := k) (p := p) (e := e) (s := s) (t := e.bestHeight) htime
  split
  · exact hupdate
  · exact Renewed.checkInputsAndAdd (s := CPatriotnodeMan.recordSeen k _ mnb) hupdate

/-! ## Broadcasts that take effect -/

/-- A time before the broadcast's and well before the present. -/
theorem exists_older {now time : Int64} (hnow : 0 ≤ now) (htime : 0 < time) : ∃ t : Int64, t < time ∧ 600 ≤ now - t := by
  have h600 : (600 : Int64).toInt = 600 := by decide
  have h0 : (0 : Int64).toInt = 0 := by decide
  have h1 : (1 : Int64).toInt = 1 := by decide
  have hlt := now.toInt_lt
  rw [Int64.le_iff_toInt_le, h0] at hnow
  rw [Int64.lt_iff_toInt_lt, h0] at htime
  simp only [Int64.lt_iff_toInt_lt, Int64.le_iff_toInt_le, Int64.toInt_sub, h600, Int.bmod_def]
  by_cases hlate : now.toInt - 600 < time.toInt
  · refine ⟨now - 600, ?_⟩
    rw [Int64.toInt_sub, h600, Int.bmod_def]
    omega
  · refine ⟨time - 1, ?_⟩
    rw [Int64.toInt_sub, h1, Int.bmod_def]
    omega

variable (e mnb) in
/-- An enabled node of the broadcast's collateral and key. -/
def oldNode (key : Bytes) (t : Int64) : CPatriotnode where
  vin := { prevout := mnb.vin.prevout }
  addr := mnb.addr
  pubKeyCollateralAddress := mnb.pubKeyCollateralAddress
  pubKeyPatriotnode := key
  sigTime := t
  protocolVersion := mnb.protocolVersion
  lastPing := { vin := { prevout := ⟨1, 0⟩ }, blockHash := 1, sigTime := e.adjustedTime }

theorem seconds_pos (p : CChainParams) : 0 < patriotnodeRemovalSeconds p ∧ 0 < patriotnodeExpirationSeconds p ∧
    0 < patriotnodeMinPingSeconds p := by
  unfold patriotnodeRemovalSeconds patriotnodeExpirationSeconds patriotnodeMinPingSeconds
  split <;> decide

theorem oldNode_pinged {key : Bytes} {t seconds : Int64} (hpos : 0 < seconds) :
    (oldNode e mnb key t).isPingedWithin e seconds (-1) = true := by
  have hping : (oldNode e mnb key t).lastPing.isNull = false := rfl
  simp only [CPatriotnode.isPingedWithin, hping, if_true, Bool.false_eq_true, if_false, decide_eq_true_eq]
  rwa [oldNode, Int64.sub_self]

theorem takesOver_oldNode {key : Bytes} {t : Int64} (ht : 600 ≤ e.adjustedTime - t) :
    takesOver p e (oldNode e mnb key t) mnb = true := by
  have hmin : patriotnodeMinPingSeconds p ≤ 600 := by unfold patriotnodeMinPingSeconds; split <;> decide
  have hbroadcast : patriotnodeBroadcastSeconds p ≤ 600 := by unfold patriotnodeBroadcastSeconds; split <;> decide
  have hstate : (oldNode e mnb key t).getActiveState p e = .PATRIOTNODE_ENABLED := by
    unfold CPatriotnode.getActiveState
    rw [oldNode_pinged (seconds_pos p).1, oldNode_pinged (seconds_pos p).2.1, if_neg (by simp [oldNode]),
      if_neg (by simp), if_neg (by simp)]
    exact if_neg (Int64.not_lt.mpr (Int64.le_trans hmin ht))
  simp only [takesOver, CPatriotnode.isEnabled, hstate, decide_true, Bool.true_and, Bool.and_eq_true, Bool.not_eq_true',
    CPatriotnode.isBroadcastedWithin, decide_eq_false_iff_not]
  exact ⟨by simp [oldNode], Int64.not_lt.mpr (Int64.le_trans hbroadcast ht)⟩

/-- The same patriotnodes, with the same operator keys, addresses and signature times. -/
def SameNodes (s s' : CPatriotnodeMan) : Prop :=
  ∀ o, (s.find o).map (fun mn => (mn.pubKeyPatriotnode, mn.addr, mn.sigTime)) =
    (s'.find o).map (fun mn => (mn.pubKeyPatriotnode, mn.addr, mn.sigTime))

variable (p e mnb) in
/-- The broadcast passes the checks that do not look at the manager. -/
def Presentable : Prop := addrAllowed p e mnb = true ∧ WellFormed p e mnb e.bestHeight

theorem processPNBroadcast_of_not_presentable (h : ¬Presentable p e mnb) : (s.processPNBroadcast k p e mnb).2 = s := by
  rcases considered_or k p e s mnb with hc | ⟨hsame, -⟩
  · exact absurd ⟨hc.addr, hc.screened.toWellFormed⟩ h
  · exact hsame

/-- **Every presentable broadcast takes effect** in some manager: a node of its collateral and key, enabled and with
an earlier broadcast, is replaced. -/
theorem takes_effect (h : Presentable p e mnb) (hnow : 0 ≤ e.adjustedTime) (htime : 0 < mnb.sigTime)
    (hping : mnb.lastPing.vin.prevout ≠ mnb.vin.prevout ∨
      ∃ key, mnb.lastPing.checkSignature k (k.getID key) = true) :
    ∃ s : CPatriotnodeMan, ¬SameNodes (s.processPNBroadcast k p e mnb).2 s := by
  obtain ⟨key, hkey⟩ : ∃ key, mnb.lastPing.vin.prevout = mnb.vin.prevout →
      mnb.lastPing.checkSignature k (k.getID key) = true := by
    obtain hne | ⟨key, hkey⟩ := hping
    · exact ⟨[], fun heq => absurd heq hne⟩
    · exact ⟨key, fun _ => hkey⟩
  obtain ⟨t, hlt, hold⟩ := exists_older hnow htime
  let s : CPatriotnodeMan := ({} : CPatriotnodeMan).setNode mnb.vin.prevout (oldNode e mnb key t)
  have hfind : s.find mnb.vin.prevout = some (oldNode e mnb key t) := (find_setNode ..).trans (if_pos rfl)
  have hc : Considered k p e s mnb := by
    refine ⟨seen_eq_false.mpr (FinMap.get_empty _), h.1, h.2, fun pmn hpmn => ?_⟩
    rw [find_setNode] at hpmn
    split_ifs at hpmn with heq
    · cases hpmn
      exact hkey heq.symm
    · rw [show ({} : CPatriotnodeMan).find _ = none from FinMap.get_empty _] at hpmn
      cases hpmn
  have hrenewed := hc.renewed hfind hlt (takesOver_oldNode hold)
  refine ⟨s, fun hsame => ?_⟩
  have hnode := hsame mnb.vin.prevout
  rw [hfind] at hnode
  obtain ⟨mn, hmn, heq⟩ := Option.map_eq_some_iff.mp hnode
  have ht : mn.sigTime = t := congrArg (fun x => x.2.2) heq
  rw [hrenewed mn hmn] at ht
  exact Int64.lt_irrefl (ht ▸ hlt)

/-! ## Runs -/

variable (p e m) in
/-- The broadcast of a message that `ProcessPNBroadcast` gets to see. -/
def handled : Option CPatriotnodeBroadcast :=
  if e.listening = false then none
  else match m with
    | .PNBROADCAST mnb => some mnb
    | .PNBROADCAST2 mnb =>
      if p.networkUpgradeActive e.bestHeight .UPGRADE_V5_3 && !mnb.addr.isAddrV1Compatible then some mnb else none
    | .PNPING _ => none

theorem processMessage_broadcast (hm : m.broadcast? = some mnb) :
    handled p e m = some mnb ∧ s.processMessage k p e m = (s.processPNBroadcast k p e mnb).2 ∨
      handled p e m = none ∧ s.processMessage k p e m = s := by
  unfold handled processMessage
  by_cases hl : e.listening = false
  · exact .inr ⟨if_pos hl, if_pos hl⟩
  · rw [if_neg hl, if_neg hl]
    cases m with
    | PNBROADCAST mnb' =>
      cases hm
      exact .inl ⟨rfl, rfl⟩
    | PNBROADCAST2 mnb' =>
      cases hm
      dsimp only
      cases p.networkUpgradeActive e.bestHeight .UPGRADE_V5_3 <;> cases mnb.addr.isAddrV1Compatible <;> simp
    | PNPING mnp => cases hm

theorem handled_broadcast (h : handled p e m = some mnb) : m.broadcast? = some mnb := by
  unfold handled at h
  split at h
  · cases h
  · cases m with
    | PNBROADCAST mnb' => exact h
    | PNBROADCAST2 mnb' => exact (Option.ite_none_right_eq_some.mp h).2
    | PNPING mnp => cases h

theorem processMessage_of_handled (h : handled p e m = some mnb) :
    s.processMessage k p e m = (s.processPNBroadcast k p e mnb).2 := by
  rcases processMessage_broadcast (k := k) (p := p) (e := e) (s := s) (handled_broadcast h) with ⟨-, heq⟩ | ⟨hno, -⟩
  · exact heq
  · rw [hno] at h
    cases h

/-- A message that is not an unauthenticated broadcast. -/
def authenticated (k : NodeCrypto) (m : ManMessage) : Bool := m.broadcast?.all (·.signedByCollateral k)

theorem run_filter_authenticated {ms : List (ManEnv × ManMessage)} (s : CPatriotnodeMan)
    (h : ∀ m ∈ ms, ∀ mnb, handled p m.1 m.2 = some mnb → mnb.signedByCollateral k = false → ¬Presentable p m.1 mnb) :
    s.run k p (ms.filter fun m => authenticated k m.2) = s.run k p ms := by
  induction ms generalizing s with
  | nil => rfl
  | cons m ms ih =>
    obtain ⟨hm, hms⟩ := List.forall_mem_cons.mp h
    cases hauth : authenticated k m.2 with
    | true =>
      rw [List.filter_cons, hauth, if_pos rfl]
      exact ih _ hms
    | false =>
      obtain ⟨mnb, hmnb, hsig⟩ : ∃ mnb, m.2.broadcast? = some mnb ∧ mnb.signedByCollateral k = false := by
        cases hb : m.2.broadcast? with
        | none => rw [authenticated, hb] at hauth; cases hauth
        | some mnb => exact ⟨mnb, rfl, by simpa [authenticated, hb] using hauth⟩
      have hsame : s.processMessage k p m.1 m.2 = s := by
        rcases processMessage_broadcast (k := k) (p := p) (e := m.1) (s := s) hmnb with ⟨hh, heq⟩ | ⟨-, heq⟩
        · rw [heq, processPNBroadcast_of_not_presentable (hm mnb hh hsig)]
        · exact heq
      rw [List.filter_cons, hauth, if_neg (by decide), ih s hms, run, run, List.foldl_cons, hsame]

/-- **Unauthenticated broadcasts.** In a run in which none of them passes the checks that do not look at the manager
they can be left out without a difference for the patriotnodes. A broadcast whose ping names another outpoint, or is
signed with some key, has no influence on any manager exactly if it fails one of these checks. -/
theorem unauthenticated_without_influence (k : NodeCrypto) (p : CChainParams) :
    (∀ (s : CPatriotnodeMan) (ms : List (ManEnv × ManMessage)),
      (∀ m ∈ ms, ∀ mnb, handled p m.1 m.2 = some mnb → mnb.signedByCollateral k = false → ¬Presentable p m.1 mnb) →
        SameNodes (s.run k p ms) (s.run k p (ms.filter fun m => authenticated k m.2))) ∧
      ∀ e m mnb, handled p e m = some mnb → 0 ≤ e.adjustedTime → 0 < mnb.sigTime →
        (mnb.lastPing.vin.prevout ≠ mnb.vin.prevout ∨ ∃ key, mnb.lastPing.checkSignature k (k.getID key) = true) →
          ((∀ s : CPatriotnodeMan, SameNodes (s.processMessage k p e m) s) ↔ ¬Presentable p e mnb) := by
  refine ⟨fun s ms h o => by rw [run_filter_authenticated s h], fun e m mnb hm hnow htime hping => ?_⟩
  refine ⟨fun hsame h => ?_, fun h s o => ?_⟩
  · obtain ⟨s, hs⟩ := takes_effect h hnow htime hping
    exact hs (processMessage_of_handled hm ▸ hsame s)
  · rw [processMessage_of_handled hm, processPNBroadcast_of_not_presentable h]

end CPatriotnodeMan

namespace Sample

def collateralCoin : Coin := ⟨⟨CMainParams.nPNCollateralAmt, getScriptForKey 2⟩, false, false, 10⟩
def changeCoin : Coin := ⟨⟨COIN, getScriptForKey 7⟩, false, false, 10⟩

/-- The main network at height 100, with one transaction of two outputs: a collateral and the change. -/
def manEnv : ManEnv where
  adjustedTime := 100000
  bestHeight := 100
  activeProtocol := 70000
  getHashAtHeight _ := 0xb0
  getTransaction hash :=
    if hash = 0xa1 then some { vout := [collateralCoin.out, changeCoin.out], hash := 0xa1 } else none
  accessCoin o :=
    if o = ⟨0xa1, 0⟩ then some collateralCoin else if o = ⟨0xa1, 1⟩ then some changeCoin else none

/-- An unsigned broadcast, with a ping of an unknown node. -/
def unsigned (o : COutPoint) (pubKeyPatriotnode : Bytes) (port : BitVec 16) : CPatriotnodeBroadcast where
  vin := { prevout := o }
  addr := .v1 ⟨9, port⟩
  pubKeyCollateralAddress := [2]
  pubKeyPatriotnode := pubKeyPatriotnode
  sigTime := 99990
  protocolVersion := 70000
  lastPing := { vin := { prevout := ⟨0xff, 0⟩ }, blockHash := 0xb0, sigTime := 99990 }

def victimMan : CPatriotnodeMan where
  mapPatriotnodes := (∅ : FinMap COutPoint CPatriotnode).insert ⟨0xa1, 0⟩
    { vin := { prevout := ⟨0xa1, 0⟩ }, addr := .v1 ⟨1, 15110⟩, pubKeyCollateralAddress := [2],
      pubKeyPatriotnode := [3], sigTime := 90000, protocolVersion := 70000,
      lastPing := { vin := { prevout := ⟨0xa1, 0⟩ }, blockHash := 0xb0, sigTime := 99000 } }

end Sample

open Sample

open CPatriotnodeMan in
/-- The broadcast for another port can be left out before an authentic one, and the broadcast for the right port
cannot. -/
theorem unauthenticated_without_influence_sample :
    let refused := (manEnv, ManMessage.PNBROADCAST (unsigned ⟨0xa1, 0⟩ [8] 1))
    let signed := (manEnv, ManMessage.PNBROADCAST { unsigned ⟨0xa1, 0⟩ [8] 15110 with vchSig := [1] })
    SameNodes (victimMan.run nodeCrypto CMainParams [refused, signed]) (victimMan.run nodeCrypto CMainParams [signed]) ∧
      ¬∀ s : CPatriotnodeMan, SameNodes
        (s.processMessage nodeCrypto CMainParams manEnv (.PNBROADCAST (unsigned ⟨0xa1, 0⟩ [8] 15110))) s := by
  intro refused signed
  obtain ⟨hrun, hmessage⟩ := unauthenticated_without_influence nodeCrypto CMainParams
  refine ⟨hrun victimMan [refused, signed] ?_, fun h => ?_⟩
  · rw [List.forall_mem_cons, List.forall_mem_singleton]
    refine ⟨fun mnb hmnb _ hform => ?_, fun mnb hmnb hsig => ?_⟩ <;> cases hmnb
    · exact absurd (hform.2.port.mpr rfl) (by decide)
    · exact absurd hsig (by decide)
  · refine (hmessage manEnv _ (unsigned ⟨0xa1, 0⟩ [8] 15110) rfl (by decide) (by decide) (.inl (by decide))).mp h ?_
    exact ⟨by decide, by decide, by decide, rfl, by decide, by decide, by decide, by decide +kernel⟩

open CPatriotnodeMan in
/-- An unsigned broadcast gives the node of somebody else's collateral a new operator key and address. -/
theorem unauthenticated_takes_over :
    authenticated nodeCrypto (.PNBROADCAST (unsigned ⟨0xa1, 0⟩ [8] 15110)) = false ∧
      ¬SameNodes (victimMan.run nodeCrypto CMainParams
          [(manEnv, .PNBROADCAST (unsigned ⟨0xa1, 0⟩ [8] 15110))])
        (victimMan.run nodeCrypto CMainParams []) := by
  refine ⟨by decide +kernel, fun h => ?_⟩
  have hnode := h ⟨0xa1, 0⟩
  revert hnode
  decide +kernel

end TrumpCoin
