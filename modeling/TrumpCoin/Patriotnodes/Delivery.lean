import TrumpCoin.Patriotnodes.Collateral

/-!
# Delivery of broadcasts

Broadcasts for different collaterals, each of which the manager would add if it came alone. A broadcast is lost if an
earlier one has its hash, which covers neither the collateral nor the operator key, or if its ping names the node of an
earlier one and does not verify under that node's key.

* `absent_run`: what broadcasts of new nodes leave as it was;
* `find_run_of_blocks`: a broadcast that an earlier one blocks is lost;
* `broadcasts_all_added_iff`: when no broadcast is lost.
-/

namespace TrumpCoin

open Lib

namespace CPatriotnodeMan

variable {k : NodeCrypto} {p : CChainParams} {e : ManEnv} {s s' : CPatriotnodeMan} {mnb : CPatriotnodeBroadcast}

def newNode (mnb : CPatriotnodeBroadcast) : CPatriotnode := { toCPatriotnodeBroadcast := mnb }

variable (k p s) in
def deliver (ms : List (ManEnv × CPatriotnodeBroadcast)) :
    CPatriotnodeMan := s.run k p (ms.map fun m => (m.1, .PNBROADCAST m.2))

variable (k p s) in
/-- Alone, the broadcast of a new node ends up in the manager. -/
def Admissible (m : ManEnv × CPatriotnodeBroadcast) : Prop :=
  s.find m.2.vin.prevout = none ∧ (s.deliver k p [m]).find m.2.vin.prevout = some (newNode m.2)

/-- The first broadcast blocks the second: it has the same hash, or the ping of the second names its node and is not
signed with its operator key. -/
def Blocks (k : NodeCrypto) (x y : CPatriotnodeBroadcast) : Prop :=
  x.getHash k = y.getHash k ∨ y.lastPing.vin.prevout = x.vin.prevout ∧
    y.lastPing.checkSignature k (k.getID x.pubKeyPatriotnode) = false

theorem deliver_cons (s : CPatriotnodeMan) (m : ManEnv × CPatriotnodeBroadcast)
    (ms : List (ManEnv × CPatriotnodeBroadcast)) :
    s.deliver k p (m :: ms) = (s.deliver k p [m]).deliver k p ms := rfl

theorem deliver_append (s : CPatriotnodeMan) (ms ms' : List (ManEnv × CPatriotnodeBroadcast)) :
    s.deliver k p (ms ++ ms') = (s.deliver k p ms).deliver k p ms' := by
  rw [deliver, List.map_append, run, List.foldl_append]
  rfl

theorem deliver_single (m : ManEnv × CPatriotnodeBroadcast) :
    s.deliver k p [m] = if m.1.listening = false then s else (s.processPNBroadcast k p m.1 m.2).2 := rfl

/-! ## Broadcasts of new nodes -/

theorem seen_mono_recordSeen {m : CPatriotnodeBroadcast} (h : s.seen k m = true) :
    (recordSeen k s mnb).seen k m = true := by
  unfold seen at h ⊢
  unfold recordSeen FinMap.emplace
  split
  · exact h
  · by_cases heq : mnb.getHash k = m.getHash k
    · rw [heq, FinMap.get_insert_self]
      rfl
    · rwa [FinMap.get_insert_ne _ _ heq]

theorem absent_step (h : s.find mnb.vin.prevout = none) :
    (∀ o, o ≠ mnb.vin.prevout → (s.processPNBroadcast k p e mnb).2.find o = s.find o) ∧
      ∀ m, s.seen k m = true → (s.processPNBroadcast k p e mnb).2.seen k m = true := by
  rcases considered_or k p e s mnb with hc | ⟨hsame, -⟩
  case inr => rw [hsame]; exact ⟨fun _ _ => rfl, fun _ h => h⟩
  rw [processPNBroadcast_of_absent hc.new hc.addr hc.screened h]
  split
  · exact ⟨fun _ _ => rfl, fun _ h => h⟩
  rcases addWithInputs_cases k p e (recordSeen k s mnb) mnb with heq | ⟨out, -, heq⟩ | heq <;> rw [heq]
  · rw [erase_recordSeen hc.new]
    exact ⟨fun _ _ => rfl, fun _ h => h⟩
  · exact ⟨fun _ _ => rfl, fun m => seen_mono_recordSeen⟩
  · exact ⟨fun o ho => (find_setNode ..).trans (if_neg ho.symm), fun m => seen_mono_recordSeen⟩

variable {m : ManEnv × CPatriotnodeBroadcast}

theorem absent_deliver (h : s.find m.2.vin.prevout = none) :
    (∀ o, o ≠ m.2.vin.prevout → (s.deliver k p [m]).find o = s.find o) ∧
      ∀ b, s.seen k b = true → (s.deliver k p [m]).seen k b = true := by
  rw [deliver_single]
  split
  · exact ⟨fun _ _ => rfl, fun _ h => h⟩
  · exact absent_step h

/-- **A run of broadcasts of new nodes** touches only their collaterals and forgets no broadcast. -/
theorem absent_run : ∀ {ms : List (ManEnv × CPatriotnodeBroadcast)} {s : CPatriotnodeMan},
    (ms.map fun m => m.2.vin.prevout).Nodup → (∀ m ∈ ms, s.find m.2.vin.prevout = none) →
    (∀ o, o ∉ ms.map (fun m => m.2.vin.prevout) → (s.deliver k p ms).find o = s.find o) ∧
      ∀ b, s.seen k b = true → (s.deliver k p ms).seen k b = true
  | [], _, _, _ => ⟨fun _ _ => rfl, fun _ h => h⟩
  | m :: ms, s, hnodup, habsent => by
    rw [List.map_cons, List.nodup_cons] at hnodup
    rw [List.forall_mem_cons] at habsent
    obtain ⟨hframe, hseen⟩ := absent_deliver (k := k) (p := p) habsent.1
    obtain ⟨hframe', hseen'⟩ := absent_run (s := s.deliver k p [m]) hnodup.2 fun m' hm' => by
      rw [hframe _ fun heq => hnodup.1 (heq ▸ List.mem_map_of_mem hm')]
      exact habsent.2 m' hm'
    rw [deliver_cons]
    refine ⟨fun o ho => ?_, fun b hb => hseen' b (hseen b hb)⟩
    rw [List.map_cons, List.mem_cons, not_or] at ho
    rw [hframe' o ho.2, hframe o ho.1]

/-! ## Blocked broadcasts -/

theorem processPNBroadcast_of_unsigned {pmn : CPatriotnode} (hfind : s.find mnb.lastPing.vin.prevout = some pmn)
    (hsig : mnb.lastPing.checkSignature k (k.getID pmn.pubKeyPatriotnode) = false) :
    (s.processPNBroadcast k p e mnb).2 = s := by
  rcases considered_or k p e s mnb with hc | ⟨hsame, -⟩
  · rw [hc.screened.pingSigned pmn hfind] at hsig
    cases hsig
  · exact hsame

variable {y : ManEnv × CPatriotnodeBroadcast}

/-- A broadcast that is blocked by one that was seen and whose node is there changes nothing. -/
theorem deliver_of_blocks {x : CPatriotnodeBroadcast} (hblocks : Blocks k x y.2)
    (hseen : s.seen k x = true) (hfind : s.find x.vin.prevout = some (newNode x)) : s.deliver k p [y] = s := by
  rw [deliver_single]
  split
  · rfl
  · rcases hblocks with hhash | ⟨hping, hsig⟩
    · rw [seen, hhash] at hseen
      rw [processPNBroadcast_of_seen hseen]
    · exact processPNBroadcast_of_unsigned (hping ▸ hfind) hsig

theorem find_run_of_blocks {x : CPatriotnodeBroadcast}
    {ms : List (ManEnv × CPatriotnodeBroadcast)} (hy : y ∈ ms) (hblocks : Blocks k x y.2)
    (hnodup : (x.vin.prevout :: ms.map fun m => m.2.vin.prevout).Nodup)
    (habsent : ∀ m ∈ ms, s.find m.2.vin.prevout = none) (hseen : s.seen k x = true)
    (hfind : s.find x.vin.prevout = some (newNode x)) : (s.deliver k p ms).find y.2.vin.prevout = none := by
  obtain ⟨before, after, rfl⟩ := List.append_of_mem hy
  rw [List.nodup_cons, List.map_append, List.map_cons, List.mem_append, not_or, List.mem_cons, not_or,
    List.nodup_append, List.nodup_cons] at hnodup
  obtain ⟨⟨hx, -, -⟩, hbefore, ⟨hyafter, hafter⟩, hdisjoint⟩ := hnodup
  have hframe := absent_run (k := k) (p := p) hbefore fun m hm => habsent m (List.mem_append_left _ hm)
  have hother : ∀ m ∈ y :: after, (s.deliver k p before).find m.2.vin.prevout = none := fun m hm => by
    rw [hframe.1 _ fun hmem => hdisjoint _ hmem _ (List.mem_map_of_mem (f := fun m => m.2.vin.prevout) hm) rfl]
    exact habsent m (List.mem_append_right _ hm)
  rw [deliver_append, deliver_cons, deliver_of_blocks hblocks (hframe.2 x hseen) (by rw [hframe.1 _ hx, hfind])]
  rw [List.forall_mem_cons] at hother
  rw [(absent_run (k := k) (p := p) hafter hother.2).1 _ hyafter]
  exact hother.1

/-! ## Admissible broadcasts -/

theorem Admissible.spec (h : Admissible k p s m) :
    m.1.listening = true ∧ Considered k p m.1 s m.2 ∧ m.2.isInputAssociatedWithPubkey k p m.1 = true ∧
      ((recordSeen k s m.2).addWithInputs k p m.1 m.2 m.1.bestHeight).1 = .added := by
  obtain ⟨habsent, hfind⟩ := h
  rw [deliver_single] at hfind
  split_ifs at hfind with hlistening
  · rw [habsent] at hfind
    cases hfind
  · have hadded : (s.processPNBroadcast k p m.1 m.2).1 = .added := by
      rcases processPNBroadcast_keys (by rw [hfind]; rfl) with hsome | ⟨hadded, -⟩
      · rw [habsent] at hsome
        cases hsome
      · exact hadded
    rcases considered_or k p m.1 s m.2 with hc | ⟨-, hno⟩
    case inr => exact (hno hadded).elim
    rw [processPNBroadcast_of_absent hc.new hc.addr hc.screened habsent] at hadded
    split at hadded
    · cases hadded
    · rename_i hassoc
      exact ⟨by simpa using hlistening, hc, by simpa using hassoc, hadded⟩

theorem Admissible.deliver_eq (h : Admissible k p s m) :
    s.deliver k p [m] = (recordSeen k s m.2).setNode m.2.vin.prevout (newNode m.2) := by
  obtain ⟨hlistening, hc, hassoc, hadded⟩ := h.spec
  rw [deliver_single, if_neg (by simp [hlistening]),
    processPNBroadcast_of_absent hc.new hc.addr hc.screened h.1, if_neg (by simp [hassoc]),
    addWithInputs_of_added hadded]
  rfl

/-- What an admissible broadcast does not block stays admissible after it. -/
theorem Admissible.after {x : ManEnv × CPatriotnodeBroadcast} (hx : Admissible k p s x) (hy : Admissible k p s y)
    (hne : x.2.vin.prevout ≠ y.2.vin.prevout) (hblocks : ¬Blocks k x.2 y.2) :
    Admissible k p (s.deliver k p [x]) y := by
  obtain ⟨hlistening, hc, hassoc, hadded⟩ := hy.spec
  obtain ⟨hhash, hping⟩ := not_or.mp hblocks
  rw [hx.deliver_eq]
  generalize hs1 : (recordSeen k s x.2).setNode x.2.vin.prevout (newNode x.2) = s1
  have hfind : ∀ o, s1.find o = if x.2.vin.prevout = o then some (newNode x.2) else s.find o :=
    fun o => hs1 ▸ find_setNode ..
  have habsent : s1.find y.2.vin.prevout = none := by rw [hfind, if_neg hne, hy.1]
  have hnew : s1.seen k y.2 = false := by
    have hold := seen_eq_false.mp hc.new
    rw [seen_eq_false, ← hs1]
    simp only [setNode, recordSeen, FinMap.emplace]
    split
    · exact hold
    · rw [FinMap.get_insert_ne _ _ hhash, hold]
  have hscreened : Screened k p y.1 s1 y.2 y.1.bestHeight := by
    refine { hc.screened with pingSigned := fun pmn hpmn => ?_ }
    rw [hfind] at hpmn
    split_ifs at hpmn with ho
    · cases hpmn
      by_contra hsig
      exact hping ⟨ho.symm, Bool.eq_false_iff.mpr hsig⟩
    · exact hc.screened.pingSigned pmn hpmn
  have hadded' : ((recordSeen k s1 y.2).addWithInputs k p y.1 y.2 y.1.bestHeight).1 = .added := by
    obtain ⟨hconf, hlegacy, hunreg, havail, -⟩ := addWithInputs_added_iff.mp hadded
    exact addWithInputs_added_iff.mpr ⟨hconf, hlegacy, hunreg, havail, habsent⟩
  refine ⟨habsent, ?_⟩
  rw [deliver_single, if_neg (by simp [hlistening]), processPNBroadcast_of_absent hnew hc.addr hscreened habsent,
    if_neg (by simp [hassoc]), addWithInputs_of_added hadded']
  exact (find_setNode ..).trans (if_pos rfl)

/-- **No broadcast is lost** of those that are admissible one by one, for different collaterals, exactly if none
blocks a later one. -/
theorem broadcasts_all_added_iff (k : NodeCrypto) (p : CChainParams) (s : CPatriotnodeMan)
    (ms : List (ManEnv × CPatriotnodeBroadcast)) (hadmissible : ∀ m ∈ ms, Admissible k p s m)
    (hdistinct : (ms.map fun m => m.2.vin.prevout).Nodup) :
    (∀ m ∈ ms, (s.deliver k p ms).find m.2.vin.prevout = some (newNode m.2)) ↔
      ms.Pairwise fun x y => ¬Blocks k x.2 y.2 := by
  induction ms generalizing s with
  | nil => simp
  | cons x ms ih =>
    rw [List.forall_mem_cons] at hadmissible
    have hnodup := hdistinct
    rw [List.map_cons, List.nodup_cons] at hnodup
    have hne : ∀ y ∈ ms, x.2.vin.prevout ≠ y.2.vin.prevout := fun y hy heq =>
      hnodup.1 (heq ▸ List.mem_map_of_mem (f := fun m => m.2.vin.prevout) hy)
    have hx := hadmissible.1.deliver_eq
    have hfind : ∀ o, (s.deliver k p [x]).find o = if x.2.vin.prevout = o then some (newNode x.2) else s.find o :=
      fun o => hx ▸ find_setNode ..
    have hfindx : (s.deliver k p [x]).find x.2.vin.prevout = some (newNode x.2) := by rw [hfind, if_pos rfl]
    have habsent : ∀ y ∈ ms, (s.deliver k p [x]).find y.2.vin.prevout = none := fun y hy => by
      rw [hfind, if_neg (hne y hy), (hadmissible.2 y hy).1]
    rw [List.pairwise_cons, deliver_cons]
    by_cases hblocks : ∀ y ∈ ms, ¬Blocks k x.2 y.2
    · rw [List.forall_mem_cons, (absent_run hnodup.2 habsent).1 _ hnodup.1,
        ih (s.deliver k p [x])
          (fun y hy => hadmissible.1.after (hadmissible.2 y hy) (hne y hy) (hblocks y hy)) hnodup.2]
      exact and_congr_left fun _ => ⟨fun _ => hblocks, fun _ => hfindx⟩
    · obtain ⟨y, hy, hxy⟩ : ∃ y ∈ ms, Blocks k x.2 y.2 := by simpa using hblocks
      refine ⟨fun hall => ?_, fun hpair => (hblocks hpair.1).elim⟩
      have hseen : (s.deliver k p [x]).seen k x.2 = true := by
        rw [hx]
        exact seen_recordSeen _
      have hlost := find_run_of_blocks (p := p) hy hxy hdistinct habsent hseen hfindx
      rw [(List.forall_mem_cons.mp hall).2 y hy] at hlost
      cases hlost

end CPatriotnodeMan

namespace Sample

def twoCollaterals : ManEnv :=
  { manEnv with
    getTransaction := fun hash =>
      if hash = 0xa1 then some { vout := [collateralCoin.out, collateralCoin.out], hash := 0xa1 } else none
    accessCoin := fun o => if o = ⟨0xa1, 0⟩ ∨ o = ⟨0xa1, 1⟩ then some collateralCoin else none }

def firstBroadcast : ManEnv × CPatriotnodeBroadcast := (twoCollaterals, unsigned ⟨0xa1, 0⟩ [8] 15110)
def secondBroadcast : ManEnv × CPatriotnodeBroadcast := (twoCollaterals, unsigned ⟨0xa1, 1⟩ [9] 15110)
def laterBroadcast : ManEnv × CPatriotnodeBroadcast :=
  (twoCollaterals, { unsigned ⟨0xa1, 1⟩ [9] 15110 with sigTime := 99991 })

end Sample

open Sample

open CPatriotnodeMan in
theorem broadcasts_all_added_sample :
    (({} : CPatriotnodeMan).deliver nodeCrypto CMainParams
        [firstBroadcast, laterBroadcast]).find firstBroadcast.2.vin.prevout =
      some (newNode firstBroadcast.2) ∧
    (({} : CPatriotnodeMan).deliver nodeCrypto CMainParams
        [firstBroadcast, laterBroadcast]).find laterBroadcast.2.vin.prevout =
      some (newNode laterBroadcast.2) := by
  have hall := (broadcasts_all_added_iff nodeCrypto CMainParams {}
    [firstBroadcast, laterBroadcast] ?_ (by decide +kernel)).mpr ?_
  · exact ⟨hall _ List.mem_cons_self, hall _ (List.mem_cons_of_mem _ List.mem_cons_self)⟩
  · rw [List.forall_mem_cons, List.forall_mem_singleton]
    exact ⟨⟨by decide +kernel, by decide +kernel⟩, by decide +kernel, by decide +kernel⟩
  · rw [List.pairwise_pair]
    rintro (hhash | ⟨hping, -⟩)
    · exact absurd hhash (by decide +kernel)
    · exact absurd hping (by decide +kernel)

open CPatriotnodeMan in
/-- Of two broadcasts of one key and time the second is lost. -/
theorem second_broadcast_lost :
    Admissible nodeCrypto CMainParams {} firstBroadcast ∧
      Admissible nodeCrypto CMainParams {} secondBroadcast ∧
      firstBroadcast.2.vin.prevout ≠ secondBroadcast.2.vin.prevout ∧
      (({} : CPatriotnodeMan).deliver nodeCrypto CMainParams
        [firstBroadcast, secondBroadcast]).find secondBroadcast.2.vin.prevout = none :=
  ⟨⟨by decide +kernel, by decide +kernel⟩, ⟨by decide +kernel, by decide +kernel⟩, by decide +kernel,
    by decide +kernel⟩

end TrumpCoin
