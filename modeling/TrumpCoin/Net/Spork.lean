import TrumpCoin.Payments.SignedMessage

/-!
# Sporks

`CSporkManager` of `spork.cpp` with its database: the handler of spork messages, and the loader that a restart runs. Of
the messages for one spork the handler keeps the one signed last, in memory and in the database. The loader gives up
all sporks when it finds a stale message for spork 15.

* `Converged.receive`, `Converged.restart`: how long the sporks in memory and in the database are those signed last;
* `spork_convergence_iff`: when every active value of a run is the one signed last.
-/

namespace TrumpCoin

open Lib

/-! ## Spork messages -/

def SPORK_8_PATRIOTNODE_PAYMENT_ENFORCEMENT : Int := 10007
def SPORK_9_PATRIOTNODE_BUDGET_ENFORCEMENT : Int := 10008
def SPORK_13_ENABLE_SUPERBLOCKS : Int := 10012
def SPORK_14_NEW_PROTOCOL_ENFORCEMENT : Int := 10013
def SPORK_15_NEW_PROTOCOL_ENFORCEMENT_2 : Int := 10014
def SPORK_19_COLDSTAKING_MAINTENANCE : Int := 10019
def SPORK_20_SAPLING_MAINTENANCE : Int := 10020
def SPORK_21_LEGACY_PNS_MAX_HEIGHT : Int := 10021

structure CSporkDef where
  sporkId : Int
  defaultValue : Int
  name : String
deriving DecidableEq

def sporkDefs : List CSporkDef :=
  [⟨SPORK_8_PATRIOTNODE_PAYMENT_ENFORCEMENT, 4070908800, "SPORK_8_PATRIOTNODE_PAYMENT_ENFORCEMENT"⟩,
    ⟨SPORK_9_PATRIOTNODE_BUDGET_ENFORCEMENT, 4070908800, "SPORK_9_PATRIOTNODE_BUDGET_ENFORCEMENT"⟩,
    ⟨SPORK_13_ENABLE_SUPERBLOCKS, 4070908800, "SPORK_13_ENABLE_SUPERBLOCKS"⟩,
    ⟨SPORK_14_NEW_PROTOCOL_ENFORCEMENT, 4070908800, "SPORK_14_NEW_PROTOCOL_ENFORCEMENT"⟩,
    ⟨SPORK_15_NEW_PROTOCOL_ENFORCEMENT_2, 4070908800, "SPORK_15_NEW_PROTOCOL_ENFORCEMENT_2"⟩,
    ⟨SPORK_19_COLDSTAKING_MAINTENANCE, 4070908800, "SPORK_19_COLDSTAKING_MAINTENANCE"⟩,
    ⟨SPORK_20_SAPLING_MAINTENANCE, 4070908800, "SPORK_20_SAPLING_MAINTENANCE"⟩,
    ⟨SPORK_21_LEGACY_PNS_MAX_HEIGHT, 4070908800, "SPORK_21_LEGACY_PNS_MAX_HEIGHT"⟩]

structure CSporkMessage extends CSignedMessage where
  nSporkID : Int
  nValue : Int
  nTimeSigned : Int
deriving DecidableEq

/-- The keys and dates of the consensus parameters, and the functions that signatures use. -/
structure SporkParams where
  crypto : MessageCrypto
  /-- `GetPublicKey().GetID()` -/
  keyID : CKeyID
  /-- `GetPublicKeyOld().GetID()` -/
  keyIDOld : CKeyID
  nTimeEnforceNewSporkKey : Int
  nTimeRejectOldSporkKey : Int

namespace CSporkMessage

/-- A signed integer of `n` bytes, as it is serialized. -/
def writeInt (n : Nat) (i : Int) : Bytes := (uintLE n).write (BitVec.ofInt (8 * n) i)

def getSignatureHash (k : MessageCrypto) (m : CSporkMessage) : uint256 :=
  k.hashWriter (writeInt 4 m.nMessVersion ++ writeInt 4 m.nSporkID ++ writeInt 8 m.nValue ++ writeInt 8 m.nTimeSigned)

def getStrMessage (m : CSporkMessage) : String := toString m.nSporkID ++ toString m.nValue ++ toString m.nTimeSigned

def checkSignature (k : MessageCrypto) (m : CSporkMessage) (keyID : CKeyID) : Bool :=
  m.toCSignedMessage.checkSignature k (m.getSignatureHash k) m.getStrMessage keyID

end CSporkMessage

/-! ## The manager -/

/-- `mapSporksActive` and the database. -/
structure CSporkManager where
  mapSporksActive : FinMap Int CSporkMessage := ∅
  sporkDB : FinMap Int CSporkMessage := ∅

/-- The time of the last stale message for spork 15. -/
def STALE_SPORK_15 : Int := 1578338986

namespace CSporkManager

def sporkDefById (nSporkID : Int) : Option CSporkDef := sporkDefs.find? (·.sporkId = nSporkID)

def addOrUpdateSporkMessage (s : CSporkManager) (spork : CSporkMessage) : CSporkManager where
  mapSporksActive := s.mapSporksActive.insert spork.nSporkID spork
  sporkDB := s.sporkDB.insert spork.nSporkID spork

/-- The signature is valid for the current key, or for the old one while that is accepted. -/
def validSignature (P : SporkParams) (adjustedTime : Int) (spork : CSporkMessage) : Bool :=
  spork.checkSignature P.crypto P.keyID ||
    !decide (P.nTimeEnforceNewSporkKey ≤ spork.nTimeSigned) && decide (adjustedTime < P.nTimeRejectOldSporkKey) &&
      spork.checkSignature P.crypto P.keyIDOld

def processSporkMsg (P : SporkParams) (adjustedTime : Int) (s : CSporkManager) (spork : CSporkMessage) :
    CSporkManager × Int :=
  if (sporkDefById spork.nSporkID).isNone then (s, 0)
  else if adjustedTime + 2 * 60 * 60 < spork.nTimeSigned then (s, 100)
  else if spork.nMessVersion ≠ MESS_VER_HASH then (s, 0)
  else if (s.mapSporksActive[spork.nSporkID]?).any (fun active => decide (spork.nTimeSigned ≤ active.nTimeSigned)) then
    (s, 0)
  else if !validSignature P adjustedTime spork then (s, 100)
  else (s.addOrUpdateSporkMessage spork, 0)

/-- The loop of `LoadSporksFromDB`. -/
def loadLoop (db : FinMap Int CSporkMessage) : List CSporkDef → FinMap Int CSporkMessage → FinMap Int CSporkMessage
  | [], active => active
  | sporkDef :: defs, active =>
    match db[sporkDef.sporkId]? with
    | none => loadLoop db defs active
    | some spork =>
      -- `Clear()` and return
      if spork.nSporkID = SPORK_15_NEW_PROTOCOL_ENFORCEMENT_2 ∧ spork.nTimeSigned ≤ STALE_SPORK_15 then ∅
      else loadLoop db defs (active.insert spork.nSporkID spork)

/-- A restart: the memory is lost and `LoadSporksFromDB` runs. -/
def loadSporksFromDB (s : CSporkManager) : CSporkManager :=
  { s with mapSporksActive := loadLoop s.sporkDB sporkDefs ∅ }

def getSporkValue (s : CSporkManager) (nSporkID : Int) : Int :=
  match s.mapSporksActive[nSporkID]? with
  | some spork => spork.nValue
  | none =>
    match sporkDefById nSporkID with
    | some sporkDef => sporkDef.defaultValue
    | none => -1

end CSporkManager

/-! ## Runs -/

inductive SporkEvent where
  | receive (spork : CSporkMessage) (adjustedTime : Int)
  | restart

def SporkEvent.message : SporkEvent → Option CSporkMessage
  | .receive spork _ => some spork
  | .restart => none

namespace CSporkManager

def step (P : SporkParams) (s : CSporkManager) : SporkEvent → CSporkManager
  | .receive spork adjustedTime => (s.processSporkMsg P adjustedTime spork).1
  | .restart => s.loadSporksFromDB

def run (P : SporkParams) (events : List SporkEvent) : CSporkManager := events.foldl (step P) {}

theorem run_append (P : SporkParams) (events : List SporkEvent) (e : SporkEvent) :
    run P (events ++ [e]) = (run P events).step P e := by
  rw [run, List.foldl_append]
  rfl

end CSporkManager

def received (events : List SporkEvent) : List CSporkMessage := events.filterMap SporkEvent.message

/-- A message that the handler accepts when nothing newer is known: validly signed with the current key and not too far
in the future. -/
structure SporkEvent.Valid (P : SporkParams) (spork : CSporkMessage) (adjustedTime : Int) : Prop where
  signed : spork.checkSignature P.crypto P.keyID = true
  version : spork.nMessVersion = MESS_VER_HASH
  time : spork.nTimeSigned ≤ adjustedTime + 2 * 60 * 60

def CSporkMessage.Live (spork : CSporkMessage) : Prop :=
  ¬(spork.nSporkID = SPORK_15_NEW_PROTOCOL_ENFORCEMENT_2 ∧ spork.nTimeSigned ≤ STALE_SPORK_15)

namespace CSporkManager

/-! ## The loader -/

theorem sporkDefById_isSome {nSporkID : Int} :
    (sporkDefById nSporkID).isSome ↔ nSporkID ∈ sporkDefs.map CSporkDef.sporkId := by
  rw [sporkDefById, List.find?_isSome, List.mem_map]
  simp only [decide_eq_true_eq]

theorem loadLoop_live {db : FinMap Int CSporkMessage}
    (hkey : ∀ (id : Int) m, db[id]? = some m → m.nSporkID = id ∧ m.Live) (id : Int) :
    ∀ (defs : List CSporkDef) (active : FinMap Int CSporkMessage),
      (loadLoop db defs active)[id]? =
        if id ∈ defs.map CSporkDef.sporkId ∧ (db[id]?).isSome then db[id]? else active[id]?
  | [], active => by simp [loadLoop]
  | sporkDef :: defs, active => by
    rw [loadLoop]
    cases hdb : db[sporkDef.sporkId]? with
    | none =>
      rw [loadLoop_live hkey id defs active]
      by_cases hid : id = sporkDef.sporkId
      · subst hid
        simp [hdb]
      · simp [hid]
    | some spork =>
      obtain ⟨hspork, hlive⟩ := hkey _ spork hdb
      dsimp only
      rw [if_neg hlive, loadLoop_live hkey id defs _, hspork, FinMap.get_insert]
      by_cases hid : sporkDef.sporkId = id
      · subst hid
        simp [hdb]
      · have hid' : id ≠ sporkDef.sporkId := Ne.symm hid
        simp [hid, hid']

variable {spork : CSporkMessage}

theorem loadLoop_stale {db : FinMap Int CSporkMessage} (hstale : ¬spork.Live) :
    ∀ (defs : List CSporkDef) (active : FinMap Int CSporkMessage), (∃ d ∈ defs, db[d.sporkId]? = some spork) →
      loadLoop db defs active = ∅
  | [], _, hd => by
    obtain ⟨d, hd, -⟩ := hd
    cases hd
  | sporkDef :: defs, active, hd => by
    rw [loadLoop]
    have htail : db[sporkDef.sporkId]? ≠ some spork → ∃ d ∈ defs, db[d.sporkId]? = some spork := fun hne => by
      obtain ⟨d, hd, hdb⟩ := hd
      rcases List.mem_cons.mp hd with rfl | hd
      · exact absurd hdb hne
      · exact ⟨d, hd, hdb⟩
    cases hdb : db[sporkDef.sporkId]? with
    | none => exact loadLoop_stale hstale defs active (htail (by rw [hdb]; simp))
    | some m =>
      dsimp only
      split_ifs with hlive
      · rfl
      · refine loadLoop_stale hstale defs _ (htail fun heq => ?_)
        rw [hdb, Option.some.injEq] at heq
        exact hstale (heq ▸ hlive)

/-! ## The sporks signed last -/

/-- What memory and database hold after the messages `msgs`. -/
structure Converged (msgs : List CSporkMessage) (s : CSporkManager) : Prop where
  active : ∀ (id : Int) m, s.mapSporksActive[id]? = some m → m.nSporkID = id ∧ m ∈ msgs ∧ (sporkDefById id).isSome
  stored : ∀ (id : Int) m, s.sporkDB[id]? = some m → m.nSporkID = id ∧ m ∈ msgs ∧ (sporkDefById id).isSome
  latest : ∀ m ∈ msgs, (sporkDefById m.nSporkID).isSome → m.Live →
    ∃ a, s.sporkDB[m.nSporkID]? = some a ∧ s.mapSporksActive[m.nSporkID]? = some a ∧ m.nTimeSigned ≤ a.nTimeSigned

variable {P : SporkParams} {msgs : List CSporkMessage} {s : CSporkManager}

/-- Every entry is a message received for the spork it stands for. -/
def Received (msgs : List CSporkMessage) (t : FinMap Int CSporkMessage) : Prop :=
  ∀ (id : Int) m, t[id]? = some m → m.nSporkID = id ∧ m ∈ msgs ∧ (sporkDefById id).isSome

theorem Received.mono {t : FinMap Int CSporkMessage} (h : Received msgs t) : Received (msgs ++ [spork]) t :=
  fun id m hm => (h id m hm).imp_right (.imp_left (List.mem_append_left _))

theorem Received.insert {t : FinMap Int CSporkMessage} (h : Received msgs t)
    (hknown : (sporkDefById spork.nSporkID).isSome) : Received (msgs ++ [spork]) (t.insert spork.nSporkID spork) :=
  FinMap.forall_insert h.mono ⟨rfl, List.mem_append_right _ List.mem_cons_self, hknown⟩

theorem converged_init : Converged [] {} where
  active id m hm := by simp at hm
  stored id m hm := by simp at hm
  latest m hm := by cases hm

/-- Memory and database agree on every spork but 15. -/
theorem Converged.active_eq_stored (h : Converged msgs s) {id : Int} (hid : id ≠ SPORK_15_NEW_PROTOCOL_ENFORCEMENT_2) :
    s.mapSporksActive[id]? = s.sporkDB[id]? := by
  have hsome : ∀ m, m.nSporkID = id → m ∈ msgs → (sporkDefById id).isSome →
      s.mapSporksActive[id]? = s.sporkDB[id]? := fun m hm hmem hknown => by
    obtain ⟨a, hstored, hactive, -⟩ := h.latest m hmem (hm ▸ hknown) fun hstale => hid (hm ▸ hstale.1)
    rw [hm] at hstored hactive
    rw [hactive, hstored]
  cases hactive : s.mapSporksActive[id]? with
  | some m =>
    obtain ⟨hm, hmem, hknown⟩ := h.active id m hactive
    rw [← hactive]
    exact hsome m hm hmem hknown
  | none =>
    cases hstored : s.sporkDB[id]? with
    | none => rfl
    | some m =>
      obtain ⟨hm, hmem, hknown⟩ := h.stored id m hstored
      rw [← hactive, ← hstored]
      exact hsome m hm hmem hknown

theorem processSporkMsg_cases {adjustedTime : Int} (hvalid : SporkEvent.Valid P spork adjustedTime) :
    (s.processSporkMsg P adjustedTime spork).1 = s ∧ ((sporkDefById spork.nSporkID).isSome →
        ∃ a, s.mapSporksActive[spork.nSporkID]? = some a ∧ spork.nTimeSigned ≤ a.nTimeSigned) ∨
      (s.processSporkMsg P adjustedTime spork).1 = s.addOrUpdateSporkMessage spork ∧
        (sporkDefById spork.nSporkID).isSome ∧
        ∀ a, s.mapSporksActive[spork.nSporkID]? = some a → a.nTimeSigned < spork.nTimeSigned := by
  have hsig : validSignature P adjustedTime spork = true := by
    rw [validSignature, hvalid.signed]
    rfl
  unfold processSporkMsg
  split
  · rename_i hnone
    refine .inl ⟨rfl, fun hsome => ?_⟩
    rw [Option.isNone_iff_eq_none] at hnone
    rw [hnone] at hsome
    cases hsome
  · rename_i hknown
    rw [if_neg (not_lt.mpr hvalid.time), if_neg (not_not.mpr hvalid.version)]
    split
    · rename_i hany
      obtain ⟨a, ha, hle⟩ := (Option.any_eq_true _ _).mp hany
      exact .inl ⟨rfl, fun _ => ⟨a, ha, of_decide_eq_true hle⟩⟩
    · rename_i hany
      rw [hsig, if_neg (by decide)]
      refine .inr ⟨rfl, Option.isSome_iff_ne_none.mpr fun hnone => hknown (Option.isNone_iff_eq_none.mpr hnone),
        fun a ha => ?_⟩
      rw [ha] at hany
      simpa using hany

theorem Converged.receive (h : Converged msgs s) {adjustedTime : Int} (hvalid : SporkEvent.Valid P spork adjustedTime) :
    Converged (msgs ++ [spork]) (s.processSporkMsg P adjustedTime spork).1 := by
  rcases processSporkMsg_cases (s := s) hvalid with ⟨heq, hnewer⟩ | ⟨heq, hknown, holder⟩
  · rw [heq]
    refine ⟨Received.mono h.active, Received.mono h.stored, fun m hm hknown hlive => ?_⟩
    rcases List.mem_append.mp hm with hm | hm
    · exact h.latest m hm hknown hlive
    · -- what is in memory is newer than the message, hence not stale and stored as well
      rw [List.mem_singleton] at hm
      subst hm
      obtain ⟨a, ha, hle⟩ := hnewer hknown
      obtain ⟨haid, hamem, -⟩ := h.active _ a ha
      have halive : a.Live := fun hstale => hlive ⟨haid ▸ hstale.1, hle.trans hstale.2⟩
      obtain ⟨b, hstored, hactive, -⟩ := h.latest a hamem (by rw [haid]; exact hknown) halive
      rw [haid] at hstored hactive
      rw [ha] at hactive
      cases hactive
      exact ⟨a, hstored, ha, hle⟩
  · rw [heq]
    refine ⟨Received.insert h.active hknown, Received.insert h.stored hknown, fun m hm hmknown hlive => ?_⟩
    dsimp only [addOrUpdateSporkMessage]
    by_cases hid : spork.nSporkID = m.nSporkID
    · rw [← hid, FinMap.get_insert_self, FinMap.get_insert_self]
      refine ⟨spork, rfl, rfl, ?_⟩
      rcases List.mem_append.mp hm with hm | hm
      · obtain ⟨a, -, hactive, hle⟩ := h.latest m hm hmknown hlive
        exact hle.trans (holder a (hid ▸ hactive)).le
      · rw [List.mem_singleton.mp hm]
    · rw [FinMap.get_insert_ne _ _ hid, FinMap.get_insert_ne _ _ hid]
      rcases List.mem_append.mp hm with hm | hm
      · exact h.latest m hm hmknown hlive
      · exact absurd (congrArg CSporkMessage.nSporkID (List.mem_singleton.mp hm)).symm hid

/-! ## Restarts -/

/-- The database has no stale message for spork 15, or no message for any other spork. -/
def RestartKeeps (s : CSporkManager) : Prop :=
  (∀ m, s.sporkDB[SPORK_15_NEW_PROTOCOL_ENFORCEMENT_2]? = some m → STALE_SPORK_15 < m.nTimeSigned) ∨
    ∀ id : Int, id ≠ SPORK_15_NEW_PROTOCOL_ENFORCEMENT_2 → s.sporkDB[id]? = none

theorem Converged.load_live (h : Converged msgs s)
    (hlive : ∀ m, s.sporkDB[SPORK_15_NEW_PROTOCOL_ENFORCEMENT_2]? = some m → STALE_SPORK_15 < m.nTimeSigned)
    (id : Int) :
    s.loadSporksFromDB.mapSporksActive[id]? = s.sporkDB[id]? := by
  have hkey : ∀ (id : Int) m, s.sporkDB[id]? = some m → m.nSporkID = id ∧ m.Live := fun id m hm => by
    have hid := (h.stored id m hm).1
    refine ⟨hid, fun hstale => ?_⟩
    rw [← hid, hstale.1] at hm
    exact absurd hstale.2 (not_le.mpr (hlive m hm))
  dsimp only [loadSporksFromDB]
  rw [loadLoop_live hkey id sporkDefs ∅]
  cases hdb : s.sporkDB[id]? with
  | none => simp
  | some m =>
    have hknown := sporkDefById_isSome.mp (h.stored id m hdb).2.2
    simp only [Option.isSome_some, and_true]
    rw [if_pos hknown]

theorem load_stale {m : CSporkMessage} (hm : s.sporkDB[SPORK_15_NEW_PROTOCOL_ENFORCEMENT_2]? = some m)
    (hid : m.nSporkID = SPORK_15_NEW_PROTOCOL_ENFORCEMENT_2) (hstale : m.nTimeSigned ≤ STALE_SPORK_15) :
    s.loadSporksFromDB.mapSporksActive = ∅ :=
  loadLoop_stale (fun hlive => hlive ⟨hid, hstale⟩) sporkDefs ∅
    ⟨⟨SPORK_15_NEW_PROTOCOL_ENFORCEMENT_2, 4070908800, "SPORK_15_NEW_PROTOCOL_ENFORCEMENT_2"⟩, by decide, hm⟩

theorem Converged.restart (h : Converged msgs s) (hkeeps : s.RestartKeeps) : Converged msgs s.loadSporksFromDB := by
  by_cases hlive : ∀ m, s.sporkDB[SPORK_15_NEW_PROTOCOL_ENFORCEMENT_2]? = some m → STALE_SPORK_15 < m.nTimeSigned
  · have hload := h.load_live hlive
    refine ⟨fun id m hm => ?_, h.stored, fun m hm hknown hl => ?_⟩
    · rw [hload] at hm
      exact h.stored id m hm
    · obtain ⟨a, hstored, -, hle⟩ := h.latest m hm hknown hl
      exact ⟨a, hstored, (hload _).trans hstored, hle⟩
  · -- only a stale spork 15 is stored, so that no live message was received
    have hothers := hkeeps.resolve_left hlive
    push Not at hlive
    obtain ⟨m₁₅, hm₁₅, hstale⟩ := hlive
    have hempty := load_stale hm₁₅ (h.stored _ _ hm₁₅).1 hstale
    refine ⟨fun id m hm => ?_, h.stored, fun m hm hknown hl => ?_⟩
    · rw [hempty] at hm
      simp at hm
    · obtain ⟨a, hstored, -, hle⟩ := h.latest m hm hknown hl
      by_cases hid : m.nSporkID = SPORK_15_NEW_PROTOCOL_ENFORCEMENT_2
      · rw [hid, hm₁₅, Option.some.injEq] at hstored
        subst hstored
        exact absurd ⟨hid, hle.trans hstale⟩ hl
      · rw [hothers _ hid] at hstored
        cases hstored

end CSporkManager

open CSporkManager

/-! ## Every run -/

/-- The active value of a spork is that of the message signed last, a stale message for spork 15 apart. -/
def ActiveLatest (msgs : List CSporkMessage) (s : CSporkManager) : Prop :=
  ∀ m ∈ msgs, (sporkDefById m.nSporkID).isSome → m.Live →
    (∀ m' ∈ msgs, m'.nSporkID = m.nSporkID → m'.nTimeSigned ≤ m.nTimeSigned) → s.getSporkValue m.nSporkID = m.nValue

/-- The event handles or discards spork `id`. -/
def SporkEvent.Concerns (id : Int) : SporkEvent → Prop
  | .receive spork _ => spork.nSporkID = id
  | .restart => id = SPORK_15_NEW_PROTOCOL_ENFORCEMENT_2

theorem CSporkManager.Converged.activeLatest {msgs : List CSporkMessage} {s : CSporkManager} (h : Converged msgs s)
    (hdistinct : ∀ m ∈ msgs, ∀ m' ∈ msgs, m.nSporkID = m'.nSporkID → m.nTimeSigned = m'.nTimeSigned → m = m') :
    ActiveLatest msgs s := by
  intro m hm hknown hlive hmax
  obtain ⟨a, -, hactive, hle⟩ := h.latest m hm hknown hlive
  obtain ⟨haid, hamem, -⟩ := h.active _ a hactive
  have heq : a = m := hdistinct a hamem m hm haid (le_antisymm (hmax a hamem haid) hle)
  rw [getSporkValue, hactive, heq]

/-- An event leaves the other sporks alone, unless it is a restart that finds a stale spork 15 next to another spork. -/
theorem CSporkManager.Converged.step_keeps_iff {P : SporkParams} {msgs : List CSporkMessage} {s : CSporkManager}
    (h : Converged msgs s) {e : SporkEvent} (hvalid : ∀ m t, e = .receive m t → SporkEvent.Valid P m t) :
    (∀ id : Int, ¬e.Concerns id → (s.step P e).mapSporksActive[id]? = s.mapSporksActive[id]?) ↔
      (e = .restart → s.RestartKeeps) := by
  cases e with
  | receive spork t =>
    refine iff_of_true (fun id hid => ?_) (fun heq => (by cases heq))
    dsimp only [step]
    rcases processSporkMsg_cases (s := s) (hvalid spork t rfl) with ⟨heq, -⟩ | ⟨heq, -⟩
    · rw [heq]
    · rw [heq]
      exact FinMap.get_insert_ne _ _ hid
  | restart =>
    simp only [forall_const]
    refine ⟨fun hkeep => ?_, fun hkeeps id hid => ?_⟩
    · by_contra hbad
      obtain ⟨hstale, hother⟩ := not_or.mp hbad
      push Not at hstale hother
      obtain ⟨m₁₅, hm₁₅, hstale⟩ := hstale
      obtain ⟨id, hid, hsome⟩ := hother
      have hafter := hkeep id hid
      rw [h.active_eq_stored hid] at hafter
      dsimp only [step] at hafter
      rw [load_stale hm₁₅ (h.stored _ _ hm₁₅).1 hstale, FinMap.get_empty] at hafter
      exact hsome hafter.symm
    · have hid' : id ≠ SPORK_15_NEW_PROTOCOL_ENFORCEMENT_2 := hid
      rw [h.active_eq_stored hid']
      exact (h.restart hkeeps).active_eq_stored hid'

theorem received_append (events : List SporkEvent) (e : SporkEvent) :
    received (events ++ [e]) = received events ++ e.message.toList := by
  rw [received, List.filterMap_append]
  cases e <;> rfl

theorem CSporkManager.Converged.run {P : SporkParams} {events : List SporkEvent}
    (hvalid : ∀ m t, .receive m t ∈ events → SporkEvent.Valid P m t)
    (hkeeps : ∀ done rest, events = done ++ .restart :: rest → (CSporkManager.run P done).RestartKeeps) :
    Converged (received events) (CSporkManager.run P events) := by
  induction events using List.reverseRecOn with
  | nil => exact converged_init
  | append_singleton events e ih =>
    have hbefore := ih (fun m t hm => hvalid m t (List.mem_append_left _ hm)) fun done rest heq =>
      hkeeps done (rest ++ [e]) (by rw [heq, List.append_assoc]; rfl)
    rw [run_append, received_append]
    cases e with
    | receive spork t => exact hbefore.receive (hvalid spork t (List.mem_append_right _ List.mem_cons_self))
    | restart =>
      rw [show SporkEvent.restart.message.toList = [] from rfl, List.append_nil]
      exact hbefore.restart (hkeeps events [] rfl)

/-- **Convergence of sporks.** For any valid messages in any order with any restarts between them: at every point of the
run the active values are those signed last, and no event changes or forgets another spork than its own, if and only if
no restart finds a stale message for spork 15 in the database next to a message for another spork. -/
theorem spork_convergence_iff (P : SporkParams) (events : List SporkEvent)
    (hvalid : ∀ m t, .receive m t ∈ events → SporkEvent.Valid P m t)
    (hdistinct : ∀ m ∈ received events, ∀ m' ∈ received events,
      m.nSporkID = m'.nSporkID → m.nTimeSigned = m'.nTimeSigned → m = m') :
    ((∀ done rest, events = done ++ rest → ActiveLatest (received done) (CSporkManager.run P done)) ∧
      ∀ done e rest, events = done ++ e :: rest → ∀ id : Int, ¬e.Concerns id →
        (CSporkManager.run P (done ++ [e])).mapSporksActive[id]? = (CSporkManager.run P done).mapSporksActive[id]?) ↔
      ∀ done rest, events = done ++ .restart :: rest → (CSporkManager.run P done).RestartKeeps := by
  have hearlier : ∀ done rest, events = done ++ rest → ∀ m t, .receive m t ∈ done → SporkEvent.Valid P m t :=
    fun done rest heq m t hm => hvalid m t (heq ▸ List.mem_append_left _ hm)
  constructor
  · rintro ⟨-, hsteps⟩ done
    -- induction on the length of the run before the restart: until then the sporks converge
    induction hn : done.length using Nat.strong_induction_on generalizing done with
    | _ n ih =>
      intro rest heq
      have hbefore : Converged (received done) (CSporkManager.run P done) :=
        .run (hearlier done _ heq) fun done' rest' heq' => by
          refine ih done'.length ?_ done' rfl (rest' ++ .restart :: rest) (by rw [heq, heq']; simp)
          rw [← hn, heq', List.length_append, List.length_cons]
          omega
      have hiff := hbefore.step_keeps_iff (P := P) (e := .restart) fun m t h => (by cases h)
      refine hiff.mp (fun id hid => ?_) rfl
      rw [← run_append]
      exact hsteps done .restart rest heq id hid
  · intro hkeeps
    have hconv : ∀ done rest, events = done ++ rest → Converged (received done) (CSporkManager.run P done) :=
      fun done rest heq => .run (hearlier done rest heq) fun done' rest' heq' =>
        hkeeps done' (rest' ++ rest) (by rw [heq, heq']; simp)
    refine ⟨fun done rest heq => (hconv done rest heq).activeLatest fun m hm m' hm' => ?_,
      fun done e rest heq id hid => ?_⟩
    · have hsub : ∀ x, x ∈ received done → x ∈ received events := fun x hx => by
        rw [heq, received, List.filterMap_append]
        exact List.mem_append_left _ hx
      exact hdistinct m (hsub m hm) m' (hsub m' hm')
    · rw [run_append]
      have hevent : ∀ m t, e = .receive m t → SporkEvent.Valid P m t := fun m t hem =>
        hvalid m t (by rw [heq, hem]; simp)
      refine ((hconv done _ heq).step_keeps_iff hevent).mpr (fun hrestart => ?_) id hid
      exact hkeeps done rest (by rw [heq, hrestart])

def Sample.sporkParams : SporkParams where
  crypto := { hashWriter := fun _ => 0, getMessageHash := fun _ => 0, verifyHash := fun _ _ _ => true }
  keyID := 1
  keyIDOld := 2
  nTimeEnforceNewSporkKey := 0
  nTimeRejectOldSporkKey := 0

def Sample.spork20 : CSporkMessage := { nSporkID := 10020, nValue := 7, nTimeSigned := 100 }

open Sample

/-- A newer message, an older one, and a restart. -/
def Sample.sporkRun : List SporkEvent :=
  [.receive spork20 100, .receive { nSporkID := 10020, nValue := 8, nTimeSigned := 50 } 100, .restart]

theorem spork_convergence_iff_restarted :
    ((∀ done rest, sporkRun = done ++ rest →
        ActiveLatest (received done) (CSporkManager.run sporkParams done)) ∧
      ∀ done e rest, sporkRun = done ++ e :: rest → ∀ id : Int, ¬e.Concerns id →
        (CSporkManager.run sporkParams (done ++ [e])).mapSporksActive[id]? =
          (CSporkManager.run sporkParams done).mapSporksActive[id]?) ↔
      ∀ done rest, sporkRun = done ++ .restart :: rest →
        (CSporkManager.run sporkParams done).RestartKeeps := by
  refine spork_convergence_iff sporkParams sporkRun (fun m t hm => ?_) (by decide +kernel)
  simp only [sporkRun, List.mem_cons, SporkEvent.receive.injEq, List.not_mem_nil, or_false, reduceCtorEq] at hm
  rcases hm with ⟨rfl, rfl⟩ | ⟨rfl, rfl⟩
  · exact ⟨rfl, rfl, by decide⟩
  · exact ⟨rfl, rfl, by decide⟩

/-- A message for spork 20, a stale one for spork 15, and a restart. -/
def Sample.staleRun : List SporkEvent :=
  [.receive spork20 100, .receive { nSporkID := 10014, nValue := 0, nTimeSigned := 100 } 100, .restart]

/-- The stale spork 15 takes spork 20 with it: the only message for spork 20 is forgotten. -/
theorem stale_spork_forgets_others :
    received staleRun = [spork20, { nSporkID := 10014, nValue := 0, nTimeSigned := 100 }] ∧
      spork20.nValue = 7 ∧
      (CSporkManager.run sporkParams staleRun).getSporkValue 10020 = 4070908800 ∧
      ¬ActiveLatest (received staleRun) (CSporkManager.run sporkParams staleRun) := by
  have hvalue : (CSporkManager.run sporkParams staleRun).getSporkValue 10020 = 4070908800 := by
    decide +kernel
  refine ⟨rfl, rfl, hvalue, fun hlatest => ?_⟩
  have hseven := hlatest spork20 List.mem_cons_self (by decide) (by rintro ⟨h, -⟩; exact absurd h (by decide))
    (by decide)
  rw [show spork20.nSporkID = 10020 from rfl, hvalue] at hseven
  exact absurd hseven (by decide)

end TrumpCoin
