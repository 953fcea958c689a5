import TrumpCoin.Patriotnodes.Broadcasts

/-!
# The collateral of a patriotnode

A broadcast names an outpoint. That the outpoint is unspent is checked of the outpoint itself, the amount and the
script only of some output of its transaction.

* `addWithInputs_added_iff`, `processPNBroadcast_cases`: when and how a node is added;
* `Exposed`: the outpoints of a transaction under which a node with a key can be added;
* `collateral_sound_iff`: when every node that is added has its collateral.
-/

namespace TrumpCoin

open Lib

namespace CPatriotnodeMan

variable {k : NodeCrypto} {p : CChainParams} {e : ManEnv} {s s' : CPatriotnodeMan} {mnb : CPatriotnodeBroadcast}

/-! ## Adding a node -/

/-- The unspent output at an outpoint has its confirmations, the last of them by some time. -/
def ConfirmedBy (p : CChainParams) (e : ManEnv) (o : COutPoint) (time : Int64) : Prop :=
  ∃ coin, e.accessCoin o = some coin ∧ p.patriotnodeCollateralMinConf ≤ e.bestHeight - coin.nHeight + 1 ∧
    e.blockTime (coin.nHeight + p.patriotnodeCollateralMinConf - 1) ≤ time

theorem addWithInputs_added_iff : (s.addWithInputs k p e mnb e.bestHeight).1 = .added ↔
    ConfirmedBy p e mnb.vin.prevout mnb.sigTime ∧ e.legacyPNObsolete = false ∧
      e.hasPNByCollateral mnb.vin.prevout = false ∧
      (CPatriotnode.isAvailableState p e { toCPatriotnodeBroadcast := mnb }) = true ∧
      s.find mnb.vin.prevout = none := by
  unfold addWithInputs ConfirmedBy add
  cases e.accessCoin mnb.vin.prevout with
  | none => simp
  | some coin =>
    dsimp only
    split_ifs with h1 h2 h3 h4 h5 h6
    all_goals simp_all
    exact Option.isSome_iff_ne_none.mp h6

theorem addWithInputs_of_added (h : (s.addWithInputs k p e mnb e.bestHeight).1 = .added) :
    s.addWithInputs k p e mnb e.bestHeight =
      (.added, s.setNode mnb.vin.prevout { toCPatriotnodeBroadcast := mnb }) := by
  rcases addWithInputs_cases k p e s mnb with heq | ⟨out, hout, heq⟩ | heq
  · rw [heq] at h
    cases h
  · rw [heq] at h
    exact (hout h).elim
  · exact heq

/-- Every collateral with a node in the second state has one in the first. -/
def KeysWithin (s s' : CPatriotnodeMan) : Prop := ∀ o, (s'.find o).isSome → (s.find o).isSome

theorem KeysWithin.refl (s : CPatriotnodeMan) : KeysWithin s s := fun _ h => h

theorem KeysWithin.trans {s₁ s₂ s₃ : CPatriotnodeMan} (h : KeysWithin s₁ s₂) (h' : KeysWithin s₂ s₃) :
    KeysWithin s₁ s₃ := fun o ho => h o (h' o ho)

theorem keysWithin_remove (o : COutPoint) : KeysWithin s (s.remove o) := by
  intro o' h
  rw [find_remove] at h
  split at h
  · cases h
  · exact h

variable {o : COutPoint} {key : Bytes} {txs : uint256 → Option CTransaction}

theorem keysWithin_setNode (mn : CPatriotnode) (h : (s.find o).isSome) : KeysWithin s (s.setNode o mn) := by
  intro o' h'
  rw [find_setNode] at h'
  split at h'
  · rename_i ho
    exact ho ▸ h
  · exact h'

theorem keysWithin_ping (ping : CPatriotnodePing) (d t : Int) (f g : Bool) :
    KeysWithin s (s.pingCheckAndUpdate k p e ping d t f g).2.2 := by
  rcases pingCheckAndUpdate_cases (k := k) (p := p) (e := e) (s := s) ping d t f g with heq | ⟨pmn, hfind, heq⟩
  · rw [heq]
    exact .refl s
  · rw [heq]
    exact keysWithin_setNode { pmn with lastPing := ping } (by rw [hfind]; rfl)

theorem keysWithin_updateFromNewBroadcast {pmn : CPatriotnode} {t : Int}
    (hfind : s.find mnb.vin.prevout = some pmn) : KeysWithin s (s.updateFromNewBroadcast k p e pmn mnb t) := by
  unfold updateFromNewBroadcast
  split
  case isFalse => exact .refl s
  dsimp only
  generalize hs1 : s.setNode mnb.vin.prevout _ = s1
  have h1 : KeysWithin s s1 := hs1 ▸ keysWithin_setNode _ (by rw [hfind]; rfl)
  generalize hr : (if mnb.lastPing.isNull = true then (true, (0 : Int), s1)
    else s1.pingCheckAndUpdate k p e mnb.lastPing 0 t false false) = r
  have h2 : KeysWithin s r.2.2 := by
    rw [← hr]
    split
    · exact h1
    · exact h1.trans (keysWithin_ping _ _ _ _ _)
  split
  · rename_i mn _ hmn
    exact h2.trans (keysWithin_setNode (s := r.2.2) _ (by rw [hmn]; rfl))
  · exact h2

theorem checkAndUpdate_keys {t : Int} (h : s.checkAndUpdate k p e mnb t = .ok s') : KeysWithin s s' := by
  unfold checkAndUpdate at h
  cases hscreen : s.screen k p e mnb t with
  | some d => rw [hscreen] at h; cases h
  | none =>
    rw [hscreen] at h
    cases hfind : s.find mnb.vin.prevout with
    | none =>
      rw [hfind] at h
      cases h
      exact .refl s
    | some pmn =>
      rw [hfind] at h
      dsimp only at h
      split_ifs at h
      · cases h
        exact keysWithin_updateFromNewBroadcast hfind
      · cases h
        exact .refl s

variable (k p e s mnb) in
/-- **How a broadcast ends**: without a new node, or with the checks of its collateral, after it passed all others. -/
theorem processPNBroadcast_cases :
    (∃ out s', out ≠ .added ∧ KeysWithin s s' ∧ s.processPNBroadcast k p e mnb = (out, s')) ∨
      Considered k p e s mnb ∧ mnb.isInputAssociatedWithPubkey k p e = true ∧
        ∃ s1, KeysWithin s s1 ∧ s.processPNBroadcast k p e mnb = s1.addWithInputs k p e mnb e.bestHeight := by
  rcases considered_or k p e s mnb with hc | ⟨hsame, hout⟩
  case inr => exact .inl ⟨_, _, hout, .refl s, Prod.ext rfl hsame⟩
  cases hcheck : s.checkAndUpdate k p e mnb e.bestHeight with
  | error d => exact .inl ⟨_, s, by simp, .refl s, processPNBroadcast_of_error hc.new hc.addr hcheck⟩
  | ok s' =>
    have hkeys := checkAndUpdate_keys hcheck
    rw [processPNBroadcast_of_ok hc.new hc.addr hcheck]
    split_ifs with hassoc
    · exact .inl ⟨_, s', by simp, hkeys, rfl⟩
    · rcases checkInputsAndAdd_cases k p e (recordSeen k s' mnb) mnb e.bestHeight with
        ⟨out, hout, heq⟩ | ⟨s1, hs1, heq⟩
      · exact .inl ⟨out, recordSeen k s' mnb, hout, hkeys, heq⟩
      · refine .inr ⟨hc, by simpa using hassoc, s1, hkeys.trans ?_, heq⟩
        rcases hs1 with rfl | ⟨o, rfl⟩
        · exact .refl s'
        · exact keysWithin_remove o

theorem processPNBroadcast_keys (h : ((s.processPNBroadcast k p e mnb).2.find o).isSome) :
    (s.find o).isSome ∨ (s.processPNBroadcast k p e mnb).1 = .added ∧ o = mnb.vin.prevout := by
  rcases processPNBroadcast_cases k p e s mnb with ⟨out, s', -, hkeys, heq⟩ | ⟨-, -, s1, hkeys, heq⟩
  · rw [heq] at h
    exact .inl (hkeys o h)
  · rw [heq] at h ⊢
    rcases addWithInputs_cases k p e s1 mnb with hadd | ⟨out, -, hadd⟩ | hadd <;> rw [hadd] at h ⊢
    · exact .inl (hkeys o h)
    · exact .inl (hkeys o h)
    · simp only [find_setNode] at h
      split_ifs at h with ho
      · exact .inr ⟨rfl, ho.symm⟩
      · exact .inl (hkeys o h)

/-! ## Outpoints that can be named -/

variable (k p e o key) in
/-- The outpoint is an unspent output of the amount that pays the key. -/
def CollateralPays : Prop :=
  ∃ coin, e.accessCoin o = some coin ∧ coin.out.nValue = p.nPNCollateralAmt ∧
    coin.out.scriptPubKey = getScriptForKey (k.getID key)

/-- A node with the key can be added under the outpoint: it is unspent and confirmed, not the collateral of a
deterministic node, and some output of its transaction has the amount and pays the key. -/
structure Exposed (k : NodeCrypto) (p : CChainParams) (e : ManEnv) (o : COutPoint) (key : Bytes) : Prop where
  /-- a ping can name a block -/
  recentBlock : ∃ blockHash, e.isWithinDepth blockHash (2 * PNPING_DEPTH) = true
  confirmed : ConfirmedBy p e o (e.getMaxTimeWindow p e.bestHeight)
  associated : ∃ txVin, e.getTransaction o.hash = some txVin ∧ ∃ out ∈ txVin.vout, out.nValue = p.nPNCollateralAmt ∧
    out.scriptPubKey = getScriptForKey (k.getID key)
  legacy : e.legacyPNObsolete = false
  unregistered : e.hasPNByCollateral o = false

theorem isInputAssociatedWithPubkey_iff : mnb.isInputAssociatedWithPubkey k p e = true ↔
    ∃ txVin, e.getTransaction mnb.vin.prevout.hash = some txVin ∧ ∃ out ∈ txVin.vout,
      out.nValue = p.nPNCollateralAmt ∧ out.scriptPubKey = getScriptForKey (k.getID mnb.pubKeyCollateralAddress) := by
  unfold CPatriotnodeBroadcast.isInputAssociatedWithPubkey
  cases e.getTransaction mnb.vin.prevout.hash with
  | none => simp
  | some txVin => simp

theorem ConfirmedBy.mono {t t' : Int64} (h : ConfirmedBy p e o t) (hle : t ≤ t') : ConfirmedBy p e o t' := by
  obtain ⟨coin, hcoin, hdepth, htime⟩ := h
  exact ⟨coin, hcoin, hdepth, Int64.le_trans htime hle⟩

theorem exposed_of_added (h : (s.processPNBroadcast k p e mnb).1 = .added) :
    Exposed k p e mnb.vin.prevout mnb.pubKeyCollateralAddress := by
  rcases processPNBroadcast_cases k p e s mnb with ⟨out, s', hout, -, heq⟩ | ⟨hc, hassoc, s1, -, heq⟩
  · rw [heq] at h
    exact (hout h).elim
  · rw [heq] at h
    obtain ⟨hconf, hlegacy, hunreg, -, -⟩ := addWithInputs_added_iff.mp h
    exact ⟨⟨_, hc.screened.pingDepth⟩, hconf.mono hc.screened.sigTime, isInputAssociatedWithPubkey_iff.mp hassoc,
      hlegacy, hunreg⟩

variable (p e o key) in
/-- A broadcast for an outpoint and a key that passes all checks if the outpoint is exposed. -/
def probe (blockHash : uint256) : CPatriotnodeBroadcast where
  vin := { prevout := o }
  addr := .v1 { port := if p.networkID = .MAIN then mainnetDefaultPort else 0 }
  pubKeyCollateralAddress := key
  pubKeyPatriotnode := []
  sigTime := e.getMaxTimeWindow p e.bestHeight
  protocolVersion := e.activeProtocol
  lastPing := { vin := { prevout := ⟨1, 0⟩ }, blockHash := blockHash, sigTime := e.getMaxTimeWindow p e.bestHeight }

theorem probe_ping {blockHash : uint256} (hblock : blockHash ≠ 0) :
    (probe p e o key blockHash).lastPing.isNull = false := by
  have hprevout : (⟨1, 0⟩ : COutPoint).isNull = false := by decide
  simp only [probe, CPatriotnodePing.isNull, hprevout, Bool.or_false, beq_eq_false_iff_ne]
  exact hblock

theorem probe_available {blockHash : uint256} (hblock : blockHash ≠ 0) :
    CPatriotnode.isAvailableState p e { toCPatriotnodeBroadcast := probe p e o key blockHash } = true := by
  -- the present is before the ping, also where the time window wraps around
  have hwindow : e.adjustedTime - e.getMaxTimeWindow p e.bestHeight < 0 := by
    unfold ManEnv.getMaxTimeWindow
    rw [show ∀ a b : Int64, a - (a + b) = -b by grind]
    split <;> decide
  have hseconds := seconds_pos p
  have hpinged : ∀ seconds, 0 < seconds →
      CPatriotnode.isPingedWithin e { toCPatriotnodeBroadcast := probe p e o key blockHash } seconds (-1) = true := by
    intro seconds hpos
    simp only [CPatriotnode.isPingedWithin, probe_ping hblock, if_true, Bool.false_eq_true, if_false, decide_eq_true_eq]
    exact Int64.lt_trans hwindow hpos
  have hstate : CPatriotnode.getActiveState p e { toCPatriotnodeBroadcast := probe p e o key blockHash } =
      .PATRIOTNODE_PRE_ENABLED := by
    unfold CPatriotnode.getActiveState
    rw [hpinged _ hseconds.1, hpinged _ hseconds.2.1, if_neg (by simp), if_neg (by simp), if_neg (by simp), if_pos]
    rw [show (probe p e o key blockHash).lastPing.sigTime = (probe p e o key blockHash).sigTime from rfl,
      Int64.sub_self]
    exact hseconds.2.2
  simp [CPatriotnode.isAvailableState, hstate]

/-- An empty manager adds the node of the probe for an exposed outpoint. -/
theorem probe_added (h : Exposed k p e o key) : ∃ blockHash,
    (({} : CPatriotnodeMan).processPNBroadcast k p e (probe p e o key blockHash)).1 = .added := by
  obtain ⟨blockHash, hdepth⟩ := h.recentBlock
  have hblock : blockHash ≠ 0 := by
    rintro rfl
    simp [ManEnv.isWithinDepth] at hdepth
  have hnone : ∀ o', ({} : CPatriotnodeMan).find o' = none := fun o' => FinMap.get_empty o'
  have hscreened : Screened k p e {} (probe p e o key blockHash) e.bestHeight := by
    refine ⟨⟨Int64.le_refl _, le_refl _, rfl, ?_, ?_, Int64.le_refl _, hdepth⟩, fun pmn hpmn => ?_⟩
    · unfold probe
      by_cases hmain : p.networkID = .MAIN
      · simp [NodeAddr.getPort, hmain]
      · simp [NodeAddr.getPort, hmain, mainnetDefaultPort]
    · exact probe_ping hblock
    · rw [hnone] at hpmn
      cases hpmn
  have hassoc : (probe p e o key blockHash).isInputAssociatedWithPubkey k p e = true :=
    isInputAssociatedWithPubkey_iff.mpr h.associated
  refine ⟨blockHash, ?_⟩
  rw [processPNBroadcast_of_absent (seen_eq_false.mpr (FinMap.get_empty _)) (by rfl) hscreened (hnone _),
    if_neg (by simp [hassoc])]
  exact addWithInputs_added_iff.mpr ⟨h.confirmed, h.legacy, h.unregistered, probe_available hblock, hnone _⟩

/-! ## Nodes and outputs of a transaction -/

/-- The environment has the coins of the given transactions. -/
def Agrees (txs : uint256 → Option CTransaction) (e : ManEnv) : Prop :=
  ∀ o coin, e.accessCoin o = some coin → ∃ tx, txs o.hash = some tx ∧ tx.vout[o.n.toNat]? = some coin.out

/-- An output of the amount of a collateral that pays a key. -/
def isCollateral (p : CChainParams) (out : CTxOut) : Bool :=
  out.nValue = p.nPNCollateralAmt ∧ CScript.isPayToPublicKeyHash out.scriptPubKey = true

variable (p txs) in
/-- Every node is known under an output that is a collateral. -/
def Backed (s : CPatriotnodeMan) : Prop :=
  ∀ o, (s.find o).isSome → ∃ tx out, txs o.hash = some tx ∧ tx.vout[o.n.toNat]? = some out ∧ isCollateral p out = true

theorem isPayToPublicKeyHash_getScriptForKey (keyID : CKeyID) :
    CScript.isPayToPublicKeyHash (getScriptForKey keyID) = true := by
  have hlength := length_write_blob 20 keyID
  unfold getScriptForKey CScript.isPayToPublicKeyHash CScript.has
  simp [hlength]

theorem processMessage_keys {m : ManMessage} (h : ((s.processMessage k p e m).find o).isSome) :
    (s.find o).isSome ∨ ∃ mnb, m.broadcast? = some mnb ∧ (s.processPNBroadcast k p e mnb).1 = .added ∧
      o = mnb.vin.prevout := by
  cases hm : m.broadcast? with
  | some mnb =>
    rcases processMessage_broadcast (k := k) (p := p) (e := e) (s := s) hm with ⟨-, heq⟩ | ⟨-, heq⟩
    · rw [heq] at h
      rcases processPNBroadcast_keys h with h | ⟨hadded, ho⟩
      · exact .inl h
      · exact .inr ⟨mnb, rfl, hadded, ho⟩
    · rw [heq] at h
      exact .inl h
  | none =>
    left
    cases m with
    | PNBROADCAST mnb => cases hm
    | PNBROADCAST2 mnb => cases hm
    | PNPING mnp =>
      have hkeys := keysWithin_ping (k := k) (p := p) (e := e) (s := s) mnp 0 e.bestHeight true false
      simp only [processMessage, processPNPing] at h
      split_ifs at h
      · exact h
      · exact h
      · refine hkeys o ?_
        revert h
        rcases s.pingCheckAndUpdate k p e mnp 0 e.bestHeight true false with ⟨b, d, s'⟩
        cases b <;> exact id

/-- Every exposed outpoint of the transaction that a message names pays its key. -/
def NamesCollateral (k : NodeCrypto) (p : CChainParams) (m : ManEnv × ManMessage) : Prop :=
  ∀ mnb, m.2.broadcast? = some mnb → ∀ n, Exposed k p m.1 ⟨mnb.vin.prevout.hash, n⟩ mnb.pubKeyCollateralAddress →
    CollateralPays k p m.1 ⟨mnb.vin.prevout.hash, n⟩ mnb.pubKeyCollateralAddress

theorem Backed.processMessage {m : ManEnv × ManMessage} (hs : Backed p txs s) (hagrees : Agrees txs m.1)
    (hnames : NamesCollateral k p m) : Backed p txs (s.processMessage k p m.1 m.2) := by
  intro o ho
  rcases processMessage_keys ho with ho | ⟨mnb, hmnb, hadded, rfl⟩
  · exact hs o ho
  · obtain ⟨coin, hcoin, hvalue, hscript⟩ := hnames mnb hmnb mnb.vin.prevout.n (exposed_of_added hadded)
    obtain ⟨tx, htx, hout⟩ := hagrees _ coin hcoin
    refine ⟨tx, coin.out, htx, hout, ?_⟩
    simp [isCollateral, hvalue, hscript, isPayToPublicKeyHash_getScriptForKey]

theorem Backed.run : ∀ {ms : List (ManEnv × ManMessage)} {s : CPatriotnodeMan},
    Backed p txs s → (∀ m ∈ ms, Agrees txs m.1) → (∀ m ∈ ms, NamesCollateral k p m) → Backed p txs (s.run k p ms)
  | [], _, hs, _, _ => hs
  | m :: ms, s, hs, hagrees, hnames => by
    rw [List.forall_mem_cons] at hagrees hnames
    have hrun := Backed.run (hs.processMessage hagrees.1 hnames.1) hagrees.2 hnames.2
    exact hrun

/-- Distinct positions of elements with a property are at most as many as these elements. -/
theorem length_le_of_positions {α : Type} {l : List α} {P : α → Bool} {is : List Nat} (hnodup : is.Nodup)
    (h : ∀ i ∈ is, ∃ x, l[i]? = some x ∧ P x = true) : is.length ≤ (l.filter P).length := by
  have hfilter : (l.filter P).length = ((l.zipIdx.filter (P ∘ Prod.fst)).map Prod.snd).length := by
    rw [List.length_map, ← List.length_map (f := Prod.fst), ← List.filter_map, List.zipIdx_map_fst]
  rw [hfilter]
  refine (hnodup.subperm fun i hi => ?_).length_le
  obtain ⟨x, hx, hP⟩ := h i hi
  exact List.mem_map.mpr ⟨(x, i), List.mem_filter.mpr ⟨List.mem_zipIdx_iff_getElem?.mpr hx, hP⟩, rfl⟩

/-- The nodes whose collaterals are outputs of one transaction. -/
def nodesOf (s : CPatriotnodeMan) (hash : uint256) : List (COutPoint × CPatriotnode) :=
  s.mapPatriotnodes.toList.filter fun node => node.1.hash == hash

theorem Backed.length_nodesOf {hash : uint256} {tx : CTransaction} (hs : Backed p txs s) (htx : txs hash = some tx) :
    (s.nodesOf hash).length ≤ (tx.vout.filter (isCollateral p)).length := by
  have hmem : ∀ node ∈ s.nodesOf hash, node.1.hash = hash ∧ s.find node.1 = some node.2 := by
    intro node hnode
    obtain ⟨hnode, hhash⟩ := List.mem_filter.mp hnode
    exact ⟨by simpa using hhash, FinMap.mem_toList.mp hnode⟩
  rw [← List.length_map (f := fun node => node.1.n.toNat)]
  refine length_le_of_positions ?_ fun i hi => ?_
  · have hnodup : (s.nodesOf hash).Nodup := (FinMap.nodup_toList _).filter _
    refine hnodup.map_on fun a ha b hb hab => ?_
    have ho : a.1 = b.1 := by
      obtain ⟨⟨_, _⟩, _⟩ := a
      obtain ⟨⟨_, _⟩, _⟩ := b
      have h1 := (hmem _ ha).1
      have h2 := (hmem _ hb).1
      simp only at h1 h2 hab ⊢
      rw [h1, h2, BitVec.eq_of_toNat_eq hab]
    have h1 := (hmem a ha).2
    rw [ho, (hmem b hb).2] at h1
    exact Prod.ext ho (Option.some.inj h1).symm
  · obtain ⟨node, hnode, rfl⟩ := List.mem_map.mp hi
    obtain ⟨hhash, hfind⟩ := hmem node hnode
    obtain ⟨tx', out, htx', hout, hcoll⟩ := hs node.1 (by rw [hfind]; rfl)
    rw [hhash, htx] at htx'
    cases htx'
    exact ⟨out, hout, hcoll⟩

/-- **Collateral soundness.** For a transaction and a key, every node that is added under an outpoint of the
transaction has that outpoint as its collateral exactly if all exposed outpoints of the transaction pay the key. In
runs of such broadcasts a transaction has at most as many nodes as it has outputs that are collaterals. -/
theorem collateral_sound_iff (k : NodeCrypto) (p : CChainParams) :
    (∀ e hash key, (∀ (s : CPatriotnodeMan) mnb, mnb.vin.prevout.hash = hash → mnb.pubKeyCollateralAddress = key →
        (s.processPNBroadcast k p e mnb).1 = .added → CollateralPays k p e mnb.vin.prevout key) ↔
      ∀ n, Exposed k p e ⟨hash, n⟩ key → CollateralPays k p e ⟨hash, n⟩ key) ∧
    ∀ txs ms, (∀ m ∈ ms, Agrees txs m.1) → (∀ m ∈ ms, NamesCollateral k p m) → ∀ hash tx, txs hash = some tx →
      ((({} : CPatriotnodeMan).run k p ms).nodesOf hash).length ≤ (tx.vout.filter (isCollateral p)).length := by
  refine ⟨fun e hash key => ⟨fun h n hexp => ?_, fun h s mnb hhash hkey hadded => ?_⟩,
    fun txs ms hagrees hnames hash tx htx => ?_⟩
  · obtain ⟨blockHash, hadded⟩ := probe_added hexp
    exact h {} (probe p e ⟨hash, n⟩ key blockHash) rfl rfl hadded
  · subst hhash hkey
    exact h mnb.vin.prevout.n (exposed_of_added hadded)
  · have hempty : Backed p txs {} := fun o ho => by
      rw [show ({} : CPatriotnodeMan).find o = none from FinMap.get_empty o] at ho
      cases ho
    exact (hempty.run hagrees hnames).length_nodesOf htx

end CPatriotnodeMan

namespace Sample

def manTxs (hash : uint256) : Option CTransaction := manEnv.getTransaction hash

def changeSpent : ManEnv :=
  { manEnv with accessCoin := fun o => if o = ⟨0xa1, 0⟩ then some collateralCoin else none }

/-- Broadcasts for both outputs of a transaction. -/
def bothOutputs (e : ManEnv) : List (ManEnv × ManMessage) :=
  [(e, .PNBROADCAST { unsigned ⟨0xa1, 0⟩ [8] 15110 with sigTime := 99980 }),
    (e, .PNBROADCAST (unsigned ⟨0xa1, 1⟩ [8] 15110))]

end Sample

open Sample

open CPatriotnodeMan in
/-- Only the collateral makes a node where the change is spent. -/
theorem collateral_sound_sample :
    ((({} : CPatriotnodeMan).run nodeCrypto CMainParams (bothOutputs changeSpent)).find ⟨0xa1, 0⟩).isSome ∧
    ((({} : CPatriotnodeMan).run nodeCrypto CMainParams (bothOutputs changeSpent)).nodesOf 0xa1).length ≤ 1 := by
  have hcoin : ∀ o coin, changeSpent.accessCoin o = some coin →
      o = ⟨0xa1, 0⟩ ∧ coin = collateralCoin := by
    intro o coin h
    obtain ⟨ho, hc⟩ := Option.ite_none_right_eq_some.mp (show (if _ then _ else none) = _ from h)
    exact ⟨ho, (Option.some.inj hc).symm⟩
  have hbroadcast : ∀ m ∈ bothOutputs changeSpent, m.1 = changeSpent ∧
      ∀ mnb, m.2.broadcast? = some mnb → mnb.pubKeyCollateralAddress = [2] := by
    simp [bothOutputs, unsigned, ManMessage.broadcast?]
  refine ⟨by decide +kernel, (collateral_sound_iff nodeCrypto CMainParams).2 manTxs _ ?_ ?_ 0xa1 _ rfl⟩
  · intro m hm o coin h
    rw [(hbroadcast m hm).1] at h
    obtain ⟨rfl, rfl⟩ := hcoin o coin h
    exact ⟨_, rfl, rfl⟩
  · intro m hm mnb hmnb n hexp
    rw [(hbroadcast m hm).1, (hbroadcast m hm).2 mnb hmnb] at hexp ⊢
    obtain ⟨coin, hc, -, -⟩ := hexp.confirmed
    obtain ⟨-, rfl⟩ := hcoin _ coin hc
    exact ⟨_, hc, rfl, by rfl⟩

open CPatriotnodeMan in
/-- Two nodes for the two outputs of a transaction, of which one is a collateral and the other the change. -/
theorem collateral_of_change : (({} : CPatriotnodeMan).processPNBroadcast nodeCrypto CMainParams manEnv
      (unsigned ⟨0xa1, 1⟩ [8] 15110)).1 = .added ∧
    ¬CollateralPays nodeCrypto CMainParams manEnv ⟨0xa1, 1⟩ [2] ∧
    ((({} : CPatriotnodeMan).run nodeCrypto CMainParams (bothOutputs manEnv)).nodesOf 0xa1).length = 2 ∧
    (manTxs 0xa1).map (fun tx => (tx.vout.filter (isCollateral CMainParams)).length) = some 1 := by
  refine ⟨by decide +kernel, ?_, by decide +kernel, by decide +kernel⟩
  rintro ⟨coin, hcoin, hvalue, -⟩
  cases hcoin
  exact absurd hvalue (by decide)

end TrumpCoin
