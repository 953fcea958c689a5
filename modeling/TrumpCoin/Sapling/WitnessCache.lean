import TrumpCoin.Sapling.NoteWitnesses

/-!
# The witness cache

A confirmed note has witnesses for the last blocks, as many as the cache size allows: the one in front for the current
tree, the next one for the tree a block earlier, and so on down to the block of the note.

* `Held`: the witnesses of a note, in a chain of which the outputs are known block by block;
* `NoteOk`: a note of the wallet at a height;
* `WalletOk`: the wallet; kept by `WalletOk.increment`, `WalletOk.decrement` and `WalletOk.synced`.
-/

namespace TrumpCoin

open Lib

/-! ## The witnesses of one note -/

abbrev Outputs := List (SaplingOutPoint × uint256)

def outpointsOf (os : List Outputs) : List SaplingOutPoint := os.flatMap fun o => o.map Prod.fst

/-- The leaves of a tree that had the leaves `base`, after blocks of outputs, the last of which comes first. -/
def leavesOver (base : List uint256) : List Outputs → List uint256
  | [] => base
  | o :: os => leavesOver base os ++ o.map Prod.snd

section Notes

variable {H : MerkleHash} {D : Nat} {base : List uint256} {op : SaplingOutPoint} {o : Outputs} {os : List Outputs}
  {before later : List uint256} {cm : uint256} {stack : List (List uint256)} {c : Nat} {ws : List IncrementalWitness}

theorem mem_outpointsOf_cons {op : SaplingOutPoint} {o : Outputs} {os : List Outputs} :
    op ∈ outpointsOf (o :: os) ↔ op ∈ o.map Prod.fst ∨ op ∈ outpointsOf os := by
  rw [outpointsOf, List.flatMap_cons, List.mem_append]
  rfl

/-- The note has the commitment `cm` after the leaves `before`; `stack` has the leaves that came after it, now, a block
ago, and so on back to its own block. -/
inductive Confirmed (base : List uint256) (op : SaplingOutPoint) :
    List Outputs → (before : List uint256) → (cm : uint256) → (stack : List (List uint256)) → Prop
  | here {o : Outputs} {os : List Outputs} {n₁ n₂ : Outputs} {cm : uint256} (split : o = n₁ ++ (op, cm) :: n₂)
      (fresh : op ∉ outpointsOf os) :
      Confirmed base op (o :: os) (leavesOver base os ++ n₁.map Prod.snd) cm [n₂.map Prod.snd]
  | later {os : List Outputs} {before : List uint256} {cm : uint256} {l : List uint256} {stack : List (List uint256)}
      (rest : Confirmed base op os before cm (l :: stack)) (o : Outputs) :
      Confirmed base op (o :: os) before cm ((l ++ o.map Prod.snd) :: l :: stack)

theorem Confirmed.leavesOver_eq (h : Confirmed base op os before cm (later :: stack)) :
    leavesOver base os = before ++ [cm] ++ later := by
  generalize hs : later :: stack = s at h
  induction h generalizing later stack with
  | here split fresh =>
    cases hs
    rw [leavesOver, split, List.map_append, List.map_cons, List.append_assoc, List.append_assoc]
    rfl
  | later rest o ih =>
    cases hs
    rw [leavesOver, ih rfl, List.append_assoc]

variable (h : Confirmed base op os before cm stack)
include h

theorem Confirmed.exists_cons : ∃ later rest, stack = later :: rest := by
  cases h with
  | here split fresh => exact ⟨_, _, rfl⟩
  | later rest o => exact ⟨_, _, rfl⟩

theorem Confirmed.mem : op ∈ outpointsOf os := by
  induction h with
  | here split fresh =>
    rw [mem_outpointsOf_cons, split, List.map_append, List.map_cons]
    exact .inl (List.mem_append_right _ List.mem_cons_self)
  | later rest o ih => exact mem_outpointsOf_cons.mpr (.inr ih)

theorem Confirmed.cm_eq {cm' : uint256} (hnodup : (outpointsOf os).Nodup) (ho : o ∈ os) (hmem : (op, cm') ∈ o) :
    cm' = cm := by
  induction h with
  | here split fresh =>
    rename_i o₁ os₁ n₁ n₂ cm₁
    rcases List.mem_cons.mp ho with rfl | hrest
    · have hnodup' : (o.map Prod.fst).Nodup := (List.nodup_append.mp hnodup).1
      have hown : (op, cm₁) ∈ o := by
        rw [split]
        exact List.mem_append_right _ List.mem_cons_self
      exact congrArg Prod.snd (List.inj_on_of_nodup_map hnodup' hmem hown rfl)
    · exact absurd (List.mem_flatMap.mpr ⟨o, hrest, List.mem_map_of_mem hmem⟩) fresh
  | later rest o₁ ih =>
    have hsplit := List.nodup_append.mp hnodup
    rcases List.mem_cons.mp ho with rfl | hrest
    · have hown : op ∈ o.map Prod.fst := List.mem_map_of_mem (f := Prod.fst) hmem
      exact absurd rfl (hsplit.2.2 _ hown _ rest.mem)
    · exact ih hsplit.2.1 hrest

omit h

theorem Confirmed.snoc (h : Confirmed base op (o :: os) before cm (later :: stack)) (output : SaplingOutPoint × uint256) :
    Confirmed base op ((o ++ [output]) :: os) before cm ((later ++ [output.2]) :: stack) := by
  cases h with
  | here split fresh =>
    rename_i n₁ n₂
    have hsplit : o ++ [output] = n₁ ++ (op, cm) :: (n₂ ++ [output]) := by rw [split, List.append_assoc]; rfl
    have hlater : n₂.map Prod.snd ++ [output.2] = (n₂ ++ [output]).map Prod.snd := by rw [List.map_append]; rfl
    rw [hlater]
    exact .here hsplit fresh
  | later rest o =>
    rename_i l stack
    have hlater : l ++ o.map Prod.snd ++ [output.2] = l ++ (o ++ [output]).map Prod.snd := by
      rw [List.map_append, List.append_assoc]
      rfl
    rw [hlater]
    exact .later rest _

variable (H D base) in
/-- The witnesses of a note with a cache of the size `c`. -/
inductive Held (os : List Outputs) (c : Nat) (op : SaplingOutPoint) : List IncrementalWitness → Prop
  | absent (h : op ∉ outpointsOf os) : Held os c op []
  | present {before : List uint256} {cm : uint256} {stack : List (List uint256)} {ws : List IncrementalWitness}
      (confirmed : Confirmed base op os before cm stack)
      (witnesses : List.Forall₂ (fun w later => w.Witnesses H D (before ++ [cm]) later) ws (stack.take c)) :
      Held os c op ws

theorem Held.length_le (h : Held H D base os c op ws) : ws.length ≤ c := by
  cases h with
  | absent h => exact Nat.zero_le c
  | present confirmed witnesses =>
    rw [witnesses.length_eq, List.length_take]
    exact Nat.min_le_left _ _

theorem Held.eq_nil (h : Held H D base os c op ws) (habs : op ∉ outpointsOf os) : ws = [] := by
  cases h with
  | absent h => rfl
  | present confirmed witnesses => exact absurd confirmed.mem habs

theorem Held.front (h : Held H D base os c op ws) (hmem : op ∈ outpointsOf os) (hc : 1 ≤ c) :
    ∃ w ws' before cm later stack, Confirmed base op os before cm (later :: stack) ∧ ws = w :: ws' ∧
      w.Witnesses H D (before ++ [cm]) later := by
  cases h with
  | absent h => exact absurd hmem h
  | present confirmed witnesses =>
    obtain ⟨later, rest, rfl⟩ := confirmed.exists_cons
    obtain ⟨c, rfl⟩ : ∃ n, c = n + 1 := ⟨c - 1, by omega⟩
    rw [List.take_succ_cons] at witnesses
    cases witnesses with
    | cons hw hrest => exact ⟨_, _, _, _, later, rest, confirmed, rfl, hw⟩

theorem trim_eq_take (h : ws.length ≤ WITNESS_CACHE_SIZE + 1) :
    (if WITNESS_CACHE_SIZE < ws.length then ws.dropLast else ws) = ws.take WITNESS_CACHE_SIZE := by
  split
  · rw [List.dropLast_eq_take]
    congr 1
    omega
  · rw [List.take_of_length_le (by omega)]

/-- A block is connected: at first it has no outputs. -/
theorem Held.copy (h : Held H D base os c op ws) (hc : op ∈ outpointsOf os → 1 ≤ c) (hmax : c ≤ WITNESS_CACHE_SIZE) :
    Held H D base ([] :: os) (min (c + 1) WITNESS_CACHE_SIZE) op
      (if WITNESS_CACHE_SIZE < (SaplingNoteData.copyFront ws).length then (SaplingNoteData.copyFront ws).dropLast
        else SaplingNoteData.copyFront ws) := by
  have hle := h.length_le
  cases h with
  | absent h => exact .absent fun hmem => h ((mem_outpointsOf_cons.mp hmem).resolve_left List.not_mem_nil)
  | present confirmed witnesses =>
    have hpos := hc confirmed.mem
    obtain ⟨later, rest, rfl⟩ := confirmed.exists_cons
    obtain ⟨c, rfl⟩ : ∃ n, c = n + 1 := ⟨c - 1, by omega⟩
    rw [List.take_succ_cons] at witnesses
    cases witnesses with
    | cons hw hrest =>
      rename_i before cm w ws
      rw [List.length_cons] at hle
      have hlen : (SaplingNoteData.copyFront (w :: ws)).length ≤ WITNESS_CACHE_SIZE + 1 := by
        show ws.length + 1 + 1 ≤ _
        omega
      have hstack := confirmed.later []
      rw [List.map_nil, List.append_nil] at hstack
      rw [trim_eq_take hlen]
      refine .present hstack ?_
      have hall : List.Forall₂ (fun w later => w.Witnesses H D (before ++ [cm]) later) (w :: w :: ws)
          ((later :: later :: rest).take (c + 1 + 1)) := .cons hw (.cons hw hrest)
      have htake := List.forall₂_take WITNESS_CACHE_SIZE hall
      rwa [List.take_take, Nat.min_comm] at htake

variable {output : SaplingOutPoint × uint256}

/-- An output of the block that is not the note's own. -/
theorem Held.append_eq_nil (h : Held H D base (o :: os) c op []) (hc : 1 ≤ c)
    (hne : op ≠ output.1) : Held H D base ((o ++ [output]) :: os) c op [] := by
  by_cases hmem : op ∈ outpointsOf (o :: os)
  · obtain ⟨w, ws', -, -, -, -, -, hnil, -⟩ := h.front hmem hc
    cases hnil
  · refine .absent fun hmem' => hmem ?_
    rw [mem_outpointsOf_cons, List.map_append, List.mem_append] at hmem'
    rw [mem_outpointsOf_cons]
    rcases hmem' with (hold | hnew) | hrest
    · exact .inl hold
    · exact absurd (List.mem_singleton.mp hnew) hne
    · exact .inr hrest

/-- Appending an output to the front witness keeps the cache of the note. -/
theorem Held.append {w : IncrementalWitness} (h : Held H D base (o :: os) c op (w :: ws)) (hD : 1 ≤ D)
    (output : SaplingOutPoint × uint256) (hlt : (leavesOver base (o :: os)).length < 2 ^ D) :
    ∃ w', w.append H D output.2 = .ok w' ∧ Held H D base ((o ++ [output]) :: os) c op (w' :: ws) := by
  cases h with
  | present confirmed witnesses =>
    obtain ⟨later, rest, rfl⟩ := confirmed.exists_cons
    cases c with
    | zero => cases witnesses
    | succ c =>
      rw [List.take_succ_cons] at witnesses
      cases witnesses with
      | cons hw hrest =>
        rw [confirmed.leavesOver_eq] at hlt
        obtain ⟨w', happ, hw'⟩ := hw.append hD output.2 hlt
        exact ⟨w', happ, .present (confirmed.snoc output) (.cons hw' hrest)⟩

theorem Held.witness {tree : IncrementalMerkleTree} (hc : 1 ≤ c)
    (htree : tree.Represents H (leavesOver base (o :: os) ++ [output.2])) (hfresh : output.1 ∉ outpointsOf os) :
    Held H D base ((o ++ [output]) :: os) c output.1 [tree.witness] := by
  obtain ⟨c, rfl⟩ : ∃ n, c = n + 1 := ⟨c - 1, by omega⟩
  have hne : leavesOver base (o :: os) ++ [output.2] ≠ [] := List.append_ne_nil_of_right_ne_nil _ (List.cons_ne_nil _ _)
  have hsplit : o ++ [output] = o ++ (output.1, output.2) :: [] := rfl
  refine .present (.here hsplit hfresh) ?_
  rw [List.take_succ_cons, List.take_nil]
  exact .cons (IncrementalWitness.witnesses_witness htree hne) .nil

theorem Held.tail (h : Held H D base (o :: os) (c + 1) op ws) : Held H D base os c op ws.tail := by
  cases h with
  | absent h => exact .absent fun hmem => h (mem_outpointsOf_cons.mpr (.inr hmem))
  | present confirmed witnesses =>
    obtain ⟨later, rest, rfl⟩ := confirmed.exists_cons
    rw [List.take_succ_cons] at witnesses
    cases witnesses with
    | cons hw hrest =>
      cases confirmed with
      | here split fresh =>
        rw [List.take_nil] at hrest
        cases hrest
        exact .absent fresh
      | later confirmed o => exact .present confirmed hrest

end Notes

/-! ## The notes of the wallet -/

section Wallet

variable {H : MerkleHash} {D : Nat} {p : CChainParams} {keys : NoteKeys} {base : List uint256}
  {os : List Outputs} {c : Nat} {t : Int} {op : SaplingOutPoint} {nd : SaplingNoteData}

variable (H D p keys base) in
/-- A note at the height `t`. The height of a note that is not in the chain is the one before it was first looked at, or
that of a block before the upgrade: such blocks are disconnected without a word to the witnesses. -/
structure NoteOk (os : List Outputs) (c : Nat) (t : Int) (op : SaplingOutPoint) (nd : SaplingNoteData) : Prop where
  ivk : nd.ivk = keys op
  external : nd.ivk = none → nd.witnesses = []
  held : nd.isMyNote = true → Held H D base os c op nd.witnesses
  height : nd.isMyNote = true → nd.witnessHeight = t ∨
    op ∉ outpointsOf os ∧ (nd.witnessHeight = -1 ∨
      t < nd.witnessHeight ∧ p.networkUpgradeActive nd.witnessHeight .UPGRADE_V5_0 = false)

variable (H D p keys base) in
/-- A note while the block of the height `i` is connected, of which the outputs `o` have been appended. -/
structure NotePending (o : Outputs) (os : List Outputs) (c : Nat) (i : Int) (op : SaplingOutPoint)
    (nd : SaplingNoteData) : Prop where
  ivk : nd.ivk = keys op
  external : nd.ivk = none → nd.witnesses = []
  held : nd.isMyNote = true → Held H D base (o :: os) c op nd.witnesses
  height : nd.isMyNote = true → nd.witnessHeight < i ∨
    i ≤ nd.witnessHeight ∧ op ∉ outpointsOf (o :: os) ∧
      p.networkUpgradeActive nd.witnessHeight .UPGRADE_V5_0 = false

theorem networkUpgradeActive_mono {a b : Int} (h : a ≤ b) (hb : p.networkUpgradeActive b .UPGRADE_V5_0 = false) :
    p.networkUpgradeActive a .UPGRADE_V5_0 = false := by
  rw [CChainParams.networkUpgradeActive, decide_eq_false_iff_not] at hb ⊢
  exact fun ha => hb ⟨ha.1, ha.2.trans h⟩

theorem active_of_le {a b : Int} (ha : p.networkUpgradeActive a .UPGRADE_V5_0 = true) (h : a ≤ b) :
    p.networkUpgradeActive b .UPGRADE_V5_0 ≠ false := by
  intro hb
  rw [networkUpgradeActive_mono h hb] at ha
  cases ha

theorem Held.assertCached (h : Held H D base os c op nd.witnesses) : nd.assertCached (c : Int) = .ok () :=
  require_eq_ok.mpr (Int.ofNat_le.mpr h.length_le)

theorem NoteOk.copy (h : NoteOk H D p keys base os c t op nd) (hc : op ∈ outpointsOf os → 1 ≤ c)
    (hmax : c ≤ WITNESS_CACHE_SIZE) (ht : -1 ≤ t) :
    ∃ nd', nd.copyPreviousWitnesses (t + 1) c = .ok nd' ∧
      NotePending H D p keys base [] os (min (c + 1) WITNESS_CACHE_SIZE) (t + 1) op nd' := by
  have hnil : ∀ {q : SaplingOutPoint}, q ∈ outpointsOf ([] :: os) → q ∈ outpointsOf os := fun hmem =>
    (mem_outpointsOf_cons.mp hmem).resolve_left List.not_mem_nil
  unfold SaplingNoteData.copyPreviousWitnesses
  split_ifs with hcond
  · have hheld := h.held hcond.1
    have hheight : nd.witnessHeight = -1 ∨ nd.witnessHeight = t + 1 - 1 := by
      rcases h.height hcond.1 with heq | ⟨-, heq | hgt⟩
      · exact .inr (by omega)
      · exact .inl heq
      · omega
    rw [hheld.assertCached, ok_bind, require_pos hheight, ok_bind]
    exact ⟨_, rfl, h.ivk, fun hext => absurd hext (Option.isSome_iff_ne_none.mp hcond.1), fun _ => hheld.copy hc hmax,
      fun _ => .inl hcond.2⟩
  · refine ⟨nd, rfl, h.ivk, h.external, fun hmine => ?_, fun hmine => ?_⟩
    · rcases h.height hmine with heq | ⟨habs, -⟩
      · exact absurd ⟨hmine, by omega⟩ hcond
      · rw [(h.held hmine).eq_nil habs]
        exact .absent fun hmem => habs (hnil hmem)
    · rcases h.height hmine with heq | ⟨habs, hlow | ⟨hgt, hinactive⟩⟩
      · exact .inl (by omega)
      · exact .inl (by omega)
      · exact .inr ⟨by omega, fun hmem => habs (hnil hmem), hinactive⟩

variable {o : Outputs} {i : Int} {base' : List uint256} {os' : List Outputs}

theorem NotePending.append (h : NotePending H D p keys base o os c i op nd) (hD : 1 ≤ D) (hc : 1 ≤ c)
    (output : SaplingOutPoint × uint256) (hlt : (leavesOver base (o :: os)).length < 2 ^ D)
    (hactive : p.networkUpgradeActive i .UPGRADE_V5_0 = true) :
    ∃ nd', nd.appendNoteCommitment H D i c output.2 = .ok nd' ∧
      (op ≠ output.1 → NotePending H D p keys base (o ++ [output]) os c i op nd') ∧
      (op ∉ outpointsOf (o :: os) → nd' = nd) ∧ nd'.isMyNote = nd.isMyNote := by
  have hlow : nd.isMyNote = true → nd.witnessHeight < i := by
    intro hmine
    rcases h.height hmine with hlow | ⟨hge, -, hinactive⟩
    · exact hlow
    · exact absurd hinactive (active_of_le hactive hge)
  unfold SaplingNoteData.appendNoteCommitment
  have hheld := h.held
  split
  · rename_i hnil
    rw [hnil] at hheld
    refine ⟨nd, rfl, fun hne => ⟨h.ivk, h.external, fun hmine => ?_, fun hmine => .inl (hlow hmine)⟩, fun _ => rfl, rfl⟩
    rw [hnil]
    exact (hheld hmine).append_eq_nil hc hne
  · rename_i w ws hcons
    rw [hcons] at hheld
    split_ifs with hcond
    · obtain ⟨w', happ, hheld'⟩ := (hheld hcond.1).append hD output hlt
      rw [(h.held hcond.1).assertCached, ok_bind, happ, ok_bind]
      refine ⟨_, rfl, fun _ => ⟨h.ivk, fun hext => ?_, fun _ => hheld', fun hmine => .inl (hlow hmine)⟩, fun habs => ?_,
        rfl⟩
      · rw [h.external hext] at hcons
        cases hcons
      · have := (hheld hcond.1).eq_nil habs
        cases this
    · have hext : nd.isMyNote = true → False := fun hmine => hcond ⟨hmine, hlow hmine⟩
      exact ⟨nd, rfl, fun _ => ⟨h.ivk, h.external, fun hmine => (hext hmine).elim, fun hmine => (hext hmine).elim⟩,
        fun _ => rfl, rfl⟩

theorem NotePending.witness {output : SaplingOutPoint × uint256} {tree : IncrementalMerkleTree}
    (h : NotePending H D p keys base o os c i output.1 nd) (hc : 1 ≤ c)
    (htree : tree.Represents H (leavesOver base (o :: os) ++ [output.2])) (hfresh : output.1 ∉ outpointsOf os)
    (hactive : p.networkUpgradeActive i .UPGRADE_V5_0 = true) :
    ∃ nd', nd.witnessNoteIfMine i c tree.witness = .ok nd' ∧
      NotePending H D p keys base (o ++ [output]) os c i output.1 nd' := by
  unfold SaplingNoteData.witnessNoteIfMine
  split_ifs with hcond
  · have hext : nd.isMyNote = true → False := by
      intro hmine
      rcases hcond with hext | hge
      · rw [hmine] at hext
        cases hext
      · rcases h.height hmine with hlow | ⟨-, -, hinactive⟩
        · omega
        · exact absurd hinactive (active_of_le hactive hge)
    exact ⟨nd, rfl, h.ivk, h.external, fun hmine => (hext hmine).elim, fun hmine => (hext hmine).elim⟩
  · rw [not_or, Bool.not_eq_false] at hcond
    have hheld := Held.witness (D := D) hc htree hfresh
    dsimp only
    rw [Held.assertCached hheld, ok_bind]
    exact ⟨_, rfl, h.ivk, fun hext => absurd hext (Option.isSome_iff_ne_none.mp hcond.1), fun _ => hheld,
      fun _ => .inl (Int.sub_one_lt_of_le le_rfl)⟩

theorem NotePending.update (h : NotePending H D p keys base o os c i op nd) :
    ∃ nd', nd.updateWitnessHeights i c = .ok nd' ∧ NoteOk H D p keys base (o :: os) c i op nd' := by
  unfold SaplingNoteData.updateWitnessHeights
  split_ifs with hcond
  · dsimp only
    have hheld : Held H D base (o :: os) c op { nd with witnessHeight := i }.witnesses := h.held hcond.1
    rw [Held.assertCached hheld, ok_bind]
    exact ⟨_, rfl, h.ivk, h.external, h.held, fun _ => .inl rfl⟩
  · refine ⟨nd, rfl, h.ivk, h.external, h.held, fun hmine => ?_⟩
    rcases h.height hmine with hlow | ⟨hge, habs, hinactive⟩
    · exact absurd ⟨hmine, hlow⟩ hcond
    · by_cases heq : nd.witnessHeight = i
      · exact .inl heq
      · exact .inr ⟨habs, .inr ⟨by omega, hinactive⟩⟩

/-- Disconnecting a block pops the front witness. -/
theorem NoteOk.decrement (h : NoteOk H D p keys base os (c + 1) t op nd)
    (htail : ∀ ws, Held H D base os (c + 1) op ws → Held H D base' os' c op ws.tail)
    (hactive : p.networkUpgradeActive t .UPGRADE_V5_0 = true) (ht : 0 ≤ t) :
    ∃ nd', nd.decrementNoteWitnesses t (c + 1 : Nat) = .ok nd' ∧ NoteOk H D p keys base' os' c (t - 1) op nd' := by
  unfold SaplingNoteData.decrementNoteWitnesses
  split
  · rename_i hmine
    have hheld := h.held hmine
    have hheight : nd.witnessHeight = -1 ∨ nd.witnessHeight = t := by
      rcases h.height hmine with heq | ⟨-, hlow | ⟨hgt, hinactive⟩⟩
      · exact .inr heq
      · exact .inl hlow
      · exact absurd hinactive (active_of_le hactive hgt.le)
    have hle : nd.witnessHeight ≤ t := by omega
    have hpop : nd.popWitness t (c + 1 : Nat) =
        .ok { nd with witnesses := nd.witnesses.tail, witnessHeight := t - 1 } := by
      unfold SaplingNoteData.popWitness
      rw [if_pos hle, hheld.assertCached, ok_bind, require_pos hheight]
      rfl
    have htail := htail _ hheld
    have hlen : (nd.witnesses.tail.length : Int) ≤ (c + 1 : Nat) - 1 := by
      have := htail.length_le
      omega
    rw [hpop, ok_bind, require_pos fun _ => hlen, ok_bind]
    exact ⟨_, rfl, h.ivk, fun hext => absurd hext (Option.isSome_iff_ne_none.mp hmine), fun _ => htail, fun _ => .inl rfl⟩
  · rename_i hext
    exact ⟨nd, rfl, h.ivk, h.external, fun hmine => absurd hmine hext, fun hmine => absurd hmine hext⟩

/-- A block is disconnected before the upgrade, when no note is in the chain. -/
theorem NoteOk.inactive (h : NoteOk H D p keys base os c t op nd)
    (hinactive : p.networkUpgradeActive t .UPGRADE_V5_0 = false) (habs : op ∉ outpointsOf os)
    (habs' : op ∉ outpointsOf os') : NoteOk H D p keys base' os' c (t - 1) op nd := by
  refine ⟨h.ivk, h.external, fun hmine => ?_, fun hmine => .inr ⟨habs', ?_⟩⟩
  · rw [(h.held hmine).eq_nil habs]
    exact .absent habs'
  · rcases h.height hmine with heq | ⟨-, hlow | ⟨hgt, hinactive'⟩⟩
    · exact .inr ⟨by omega, by rw [heq]; exact hinactive⟩
    · exact .inl hlow
    · exact .inr ⟨by omega, hinactive'⟩

/-! ## Connecting a block -/

variable {o : Outputs} {i : Int} {wallet : SaplingWallet} {notes : FinMap SaplingOutPoint SaplingNoteData}

variable (notes) in
theorem updateM_notes {f : SaplingNoteData → Result SaplingNoteData} {P : SaplingOutPoint → SaplingNoteData → Prop}
    (hf : ∀ (op : SaplingOutPoint) nd, notes[op]? = some nd → ∃ nd', f nd = .ok nd' ∧ P op nd') :
    ∃ notes' : FinMap SaplingOutPoint SaplingNoteData, notes.updateM f = .ok notes' ∧
      (∀ op : SaplingOutPoint, notes[op]?.isSome → notes'[op]?.isSome) ∧
      ∀ (op : SaplingOutPoint) nd', notes'[op]? = some nd' → P op nd' := by
  obtain ⟨notes', hok, hnone, hsome⟩ := FinMap.updateM_spec (R := fun op _ nd' => P op nd') hf
  refine ⟨notes', hok, fun op hop => ?_, fun op nd' hnd' => ?_⟩
  · obtain ⟨nd, hnd⟩ := Option.isSome_iff_exists.mp hop
    obtain ⟨nd', hnd', -⟩ := hsome op nd hnd
    exact Option.isSome_iff_exists.mpr ⟨nd', hnd'⟩
  · cases hnd : notes[op]? with
    | none =>
      rw [hnone op hnd] at hnd'
      cases hnd'
    | some nd =>
      obtain ⟨nd'', hnd'', hP⟩ := hsome op nd hnd
      rw [hnd'] at hnd''
      cases hnd''
      exact hP

variable (H D p keys base) in
/-- The tree and the notes while a block is connected. -/
structure Appending (os : List Outputs) (c : Nat) (i : Int) (notes₀ : FinMap SaplingOutPoint SaplingNoteData)
    (o : Outputs) (s : IncrementalMerkleTree × FinMap SaplingOutPoint SaplingNoteData) : Prop where
  tree : s.1.Represents H (leavesOver base (o :: os))
  notes : ∀ (op : SaplingOutPoint) nd, s.2[op]? = some nd → NotePending H D p keys base o os c i op nd
  domain : ∀ op : SaplingOutPoint, notes₀[op]?.isSome → s.2[op]?.isSome

/-- One output appended to the tree and to every witness. -/
theorem Appending.step {s : IncrementalMerkleTree × FinMap SaplingOutPoint SaplingNoteData}
    {output : SaplingOutPoint × uint256} (h : Appending H D p keys base os c i notes o s) (hD : 1 ≤ D) (hc : 1 ≤ c)
    (hcache : wallet.nWitnessCacheSize = c) (hlt : (leavesOver base (o :: os)).length < 2 ^ D)
    (hactive : p.networkUpgradeActive i .UPGRADE_V5_0 = true) (hfresh : output.1 ∉ outpointsOf (o :: os)) :
    ∃ s', wallet.appendOutput H D i s output = .ok s' ∧ Appending H D p keys base os c i notes (o ++ [output]) s' := by
  obtain ⟨tree', htree, hrep⟩ := h.tree.append hD output.2 hlt
  have hleaves : leavesOver base (o :: os) ++ [output.2] = leavesOver base ((o ++ [output]) :: os) := by
    rw [leavesOver, leavesOver, List.map_append, List.append_assoc]
    rfl
  -- the other notes are done after the loop over all notes, the note of the output is as it was
  obtain ⟨notes', hnotes, hdom, hall⟩ := updateM_notes s.2
    (f := fun nd => nd.appendNoteCommitment H D i wallet.nWitnessCacheSize output.2)
    (P := fun op nd' => (op ≠ output.1 → NotePending H D p keys base (o ++ [output]) os c i op nd') ∧
      (op ∉ outpointsOf (o :: os) → NotePending H D p keys base o os c i op nd')) (by
    intro op nd hnd
    have hnd := h.notes op nd hnd
    obtain ⟨nd', hok, hother, hsame, -⟩ := hnd.append hD hc output hlt hactive
    exact ⟨nd', by rw [hcache]; exact hok, hother, fun habs => by rw [hsame habs]; exact hnd⟩)
  unfold SaplingWallet.appendOutput
  rw [htree, ok_bind, hnotes, ok_bind]
  cases hown : notes'[output.1]? with
  | none =>
    refine ⟨_, rfl, hleaves ▸ hrep, fun op nd hnd => (hall op nd hnd).1 ?_, fun op hop => hdom op (h.domain op hop)⟩
    rintro rfl
    rw [hown] at hnd
    cases hnd
  | some nd =>
    have hpending := (hall _ nd hown).2 hfresh
    have hfresh' : output.1 ∉ outpointsOf os := fun hmem => hfresh (mem_outpointsOf_cons.mpr (.inr hmem))
    obtain ⟨nd', hwit, hpending'⟩ := hpending.witness hc hrep hfresh' hactive
    dsimp only
    rw [hcache, hwit, ok_bind]
    refine ⟨_, rfl, hleaves ▸ hrep, fun op nd₁ hnd₁ => ?_, fun op hop => ?_⟩
    · rw [FinMap.get_insert] at hnd₁
      split at hnd₁
      · rename_i heq
        cases hnd₁
        rw [← heq]
        exact hpending'
      · rename_i hne
        exact (hall op nd₁ hnd₁).1 fun heq => hne heq.symm
    · rw [FinMap.get_insert]
      split
      · rfl
      · exact hdom op (h.domain op hop)

variable (H D p keys base) in
/-- The wallet at the height `t`, with a cache of the size `c`. -/
structure WalletOk (os : List Outputs) (c : Nat) (t : Int) (wallet : SaplingWallet) : Prop where
  cache : wallet.nWitnessCacheSize = c
  notes : ∀ (op : SaplingOutPoint) nd, wallet.mapSaplingNoteData[op]? = some nd → NoteOk H D p keys base os c t op nd
  complete : ∀ op ∈ outpointsOf os, (keys op).isSome → wallet.mapSaplingNoteData[op]?.isSome

theorem growCache_nWitnessCacheSize (hcache : wallet.nWitnessCacheSize = c) (hmax : c ≤ WITNESS_CACHE_SIZE) :
    wallet.growCache.nWitnessCacheSize = (min (c + 1) WITNESS_CACHE_SIZE : Nat) := by
  unfold SaplingWallet.growCache
  split
  · dsimp only
    omega
  · omega

/-- `IncrementNoteWitnesses` for a block on top of the chain, whose notes the wallet has found. -/
theorem WalletOk.increment {block : CBlock} {tree : IncrementalMerkleTree} (h : WalletOk H D p keys base os c t wallet)
    (hD : 1 ≤ D) (hpos : outpointsOf os ≠ [] → 1 ≤ c) (hmax : c ≤ WITNESS_CACHE_SIZE) (ht : -1 ≤ t)
    (htree : tree.Represents H (leavesOver base os))
    (hcap : (leavesOver base (block.saplingOutputs :: os)).length ≤ 2 ^ D)
    (hactive : block.saplingOutputs ≠ [] → p.networkUpgradeActive (t + 1) .UPGRADE_V5_0 = true)
    (hnodup : (block.saplingOutputs.map Prod.fst).Nodup)
    (hfresh : ∀ op ∈ block.saplingOutputs.map Prod.fst, op ∉ outpointsOf os)
    (hfound : ∀ op ∈ block.saplingOutputs.map Prod.fst, (keys op).isSome → wallet.mapSaplingNoteData[op]?.isSome) :
    ∃ wallet', wallet.incrementNoteWitnesses H D (t + 1) block tree = .ok wallet' ∧
      WalletOk H D p keys base (block.saplingOutputs :: os) (min (c + 1) WITNESS_CACHE_SIZE) (t + 1) wallet' ∧
      wallet'.m_last_block_processed_height = wallet.m_last_block_processed_height := by
  obtain ⟨notes₁, hcopy, hdom₁, hall₁⟩ := updateM_notes wallet.mapSaplingNoteData
    (f := fun nd => nd.copyPreviousWitnesses (t + 1) wallet.nWitnessCacheSize)
    (P := NotePending H D p keys base [] os (min (c + 1) WITNESS_CACHE_SIZE) (t + 1)) (by
    intro op nd hnd
    rw [h.cache]
    exact (h.notes op nd hnd).copy (fun hmem => hpos (List.ne_nil_of_mem hmem)) hmax ht)
  have hcache := growCache_nWitnessCacheSize h.cache hmax
  have hone : 1 ≤ min (c + 1) WITNESS_CACHE_SIZE := by
    unfold WITNESS_CACHE_SIZE
    omega
  -- the invariant of the loop over the outputs sees those already appended
  have hloop : Returns (block.saplingOutputs.foldlM (wallet.growCache.appendOutput H D (t + 1)) (tree, notes₁))
      (Appending H D p keys base os (min (c + 1) WITNESS_CACHE_SIZE) (t + 1) notes₁ block.saplingOutputs) := by
    refine Outcome.foldlM (fun pre output post s hsplit hs => ?_) ⟨?_, hall₁, fun _ hop => hop⟩
    · rw [hsplit] at hcap hnodup hfresh hactive
      have hlt : (leavesOver base (pre :: os)).length < 2 ^ D := by
        simp only [leavesOver, List.map_append, List.map_cons, List.length_append, List.length_cons] at hcap ⊢
        omega
      have hnew : output.1 ∉ outpointsOf (pre :: os) := by
        rw [mem_outpointsOf_cons, not_or]
        rw [List.map_append, List.map_cons, List.nodup_append] at hnodup
        refine ⟨fun hmem => hnodup.2.2 _ hmem _ List.mem_cons_self rfl, hfresh _ ?_⟩
        rw [List.map_append, List.map_cons]
        exact List.mem_append_right _ List.mem_cons_self
      obtain ⟨s', hok, hs'⟩ := hs.step hD hone hcache hlt
        (hactive (List.append_ne_nil_of_right_ne_nil _ (List.cons_ne_nil _ _))) hnew
      rw [hok]
      exact hs'
    · rw [leavesOver, List.map_nil, List.append_nil]
      exact htree
  obtain ⟨⟨tree₂, notes₂⟩, hok₂, hs₂⟩ := hloop.exists_ok
  obtain ⟨notes₃, hupdate, hdom₃, hall₃⟩ := updateM_notes notes₂
    (f := fun nd => nd.updateWitnessHeights (t + 1) wallet.growCache.nWitnessCacheSize)
    (P := NoteOk H D p keys base (block.saplingOutputs :: os) (min (c + 1) WITNESS_CACHE_SIZE) (t + 1)) (by
    intro op nd hnd
    rw [hcache]
    exact (hs₂.notes op nd hnd).update)
  unfold SaplingWallet.incrementNoteWitnesses
  rw [hcopy, ok_bind]
  dsimp only
  rw [hok₂, ok_bind]
  rw [hupdate, ok_bind]
  refine ⟨_, rfl, ⟨hcache, hall₃, fun op hop hmine => hdom₃ op (hs₂.domain op (hdom₁ op ?_))⟩,
    by unfold SaplingWallet.growCache; split <;> rfl⟩
  rcases mem_outpointsOf_cons.mp hop with hnew | hold
  · exact hfound op hnew hmine
  · exact h.complete op hold hmine

theorem WalletOk.decrement (h : WalletOk H D p keys base os (c + 1) t wallet)
    (htail : ∀ op ws, Held H D base os (c + 1) op ws → Held H D base' os' c op ws.tail)
    (hsub : ∀ op ∈ outpointsOf os', op ∈ outpointsOf os) (hactive : p.networkUpgradeActive t .UPGRADE_V5_0 = true)
    (ht : 0 ≤ t) (hc : 1 ≤ c) :
    ∃ wallet', wallet.decrementNoteWitnesses p t = .ok wallet' ∧ WalletOk H D p keys base' os' c (t - 1) wallet' ∧
      wallet'.m_last_block_processed_height = wallet.m_last_block_processed_height := by
  obtain ⟨notes', hok, hdom, hall⟩ := updateM_notes wallet.mapSaplingNoteData
    (f := fun nd => nd.decrementNoteWitnesses t wallet.nWitnessCacheSize)
    (P := NoteOk H D p keys base' os' c (t - 1)) (by
    intro op nd hnd
    rw [h.cache]
    exact (h.notes op nd hnd).decrement (htail op) hactive ht)
  have hsize : 0 < wallet.nWitnessCacheSize - 1 := by
    rw [h.cache]
    omega
  unfold SaplingWallet.decrementNoteWitnesses
  rw [hok, ok_bind]
  dsimp only
  rw [require_pos hsize, ok_bind]
  refine ⟨_, rfl, ⟨?_, hall, fun op hop hmine => hdom op (h.complete op (hsub op hop) hmine)⟩, rfl⟩
  dsimp only
  rw [h.cache]
  omega

/-- The cache is not emptied. -/
theorem two_le_of_decrement {wallet' : SaplingWallet} (h : wallet.decrementNoteWitnesses p t = .ok wallet') :
    2 ≤ wallet.nWitnessCacheSize := by
  obtain ⟨notes, -, h⟩ := bind_eq_ok.mp h
  obtain ⟨_, hsize, -⟩ := bind_eq_ok.mp h
  have := require_eq_ok.mp hsize
  omega

/-! ## Finding notes -/

variable {sent : SaplingOutPoint → Bool}

theorem mem_findNotes {tx : CTransaction} {e : SaplingOutPoint × SaplingNoteData}
    (h : e ∈ SaplingWallet.findNotes keys sent tx) :
    e.1 ∈ tx.saplingOutputs.map Prod.fst ∧ e.2 = { ivk := keys e.1 } := by
  obtain ⟨output, hmem, hsome⟩ := List.mem_filterMap.mp h
  split at hsome
  · cases hsome
    exact ⟨List.mem_map_of_mem hmem, rfl⟩
  · cases hsome

theorem findNotes_of_mem {tx : CTransaction}
    (h : op ∈ tx.saplingOutputs.map Prod.fst) (hknown : (keys op).isSome ∨ sent op = true) :
    op ∈ (SaplingWallet.findNotes keys sent tx).map Prod.fst := by
  obtain ⟨output, hmem, rfl⟩ := List.mem_map.mp h
  refine List.mem_map.mpr ⟨(output.1, { ivk := keys output.1 }), List.mem_filterMap.mpr ⟨output, hmem, ?_⟩, rfl⟩
  rw [if_pos hknown]

variable {sent : SaplingOutPoint → Bool} {tx : CTransaction} {txs : List CTransaction} {wallet' : SaplingWallet}

/-- What is promised of transactions that the wallet is told of: a hash names one transaction, and what was sent by the
wallet once is still known to be. -/
structure Recognised (sent : SaplingOutPoint → Bool) (wallet : SaplingWallet) (tx : CTransaction) : Prop where
  outputs : ∀ (op : SaplingOutPoint) nd, wallet.mapSaplingNoteData[op]? = some nd → op.hash = tx.hash →
    op ∈ tx.saplingOutputs.map Prod.fst
  sent : ∀ (op : SaplingOutPoint) nd, wallet.mapSaplingNoteData[op]? = some nd → op.hash = tx.hash → nd.ivk = none →
    sent op = true

variable (keys) in
/-- The wallet has the notes that it had, and new ones without witnesses. -/
structure Synced (wallet wallet' : SaplingWallet) (txs : List CTransaction) : Prop where
  cache : wallet'.nWitnessCacheSize = wallet.nWitnessCacheSize
  height : wallet'.m_last_block_processed_height = wallet.m_last_block_processed_height
  old : ∀ (op : SaplingOutPoint) nd, wallet.mapSaplingNoteData[op]? = some nd → wallet'.mapSaplingNoteData[op]? = some nd
  new : ∀ (op : SaplingOutPoint) nd, wallet'.mapSaplingNoteData[op]? = some nd →
    wallet.mapSaplingNoteData[op]? = some nd ∨
      wallet.mapSaplingNoteData[op]? = none ∧ nd = { ivk := keys op } ∧ op.hash ∈ txs.map CTransaction.hash
  found : ∀ tx ∈ txs, ∀ op ∈ tx.saplingOutputs.map Prod.fst, (keys op).isSome → wallet'.mapSaplingNoteData[op]?.isSome

theorem hash_of_mem_outputsFrom {hash : uint256} : ∀ {outputs : List OutputDescription} {n : Nat},
    op ∈ (outputsFrom hash n outputs).map Prod.fst → op.hash = hash ∧ n ≤ op.n
  | [], _, h => by cases h
  | output :: outputs, n, h => by
    rcases List.mem_cons.mp h with rfl | hmem
    · exact ⟨rfl, Nat.le_refl n⟩
    · have := hash_of_mem_outputsFrom hmem
      exact ⟨this.1, Nat.le_of_succ_le this.2⟩

theorem hash_of_mem_saplingOutputs (h : op ∈ tx.saplingOutputs.map Prod.fst) : op.hash = tx.hash := by
  unfold CTransaction.saplingOutputs at h
  split at h
  · cases hdata : tx.sapData with
    | none =>
      rw [hdata] at h
      cases h
    | some d =>
      rw [hdata] at h
      exact (hash_of_mem_outputsFrom h).1
  · cases h

theorem keepWitnesses_some {old : SaplingNoteData} (h : old.ivk = keys op) :
    SaplingWallet.keepWitnesses (some old) { ivk := keys op } = old := by
  obtain ⟨witnesses, ivk, height⟩ := old
  cases h
  cases witnesses <;> rfl

theorem synced_syncTransaction (hivk : ∀ (op : SaplingOutPoint) nd, wallet.mapSaplingNoteData[op]? = some nd →
    nd.ivk = keys op) (hrec : Recognised sent wallet tx) :
    ∃ wallet', wallet.syncTransaction keys sent tx = .ok wallet' ∧ Synced keys wallet wallet' [tx] := by
  unfold SaplingWallet.syncTransaction
  have hmem : ∀ op ∈ tx.saplingOutputs.map Prod.fst, (keys op).isSome →
      op ∈ (SaplingWallet.findNotes keys sent tx).map Prod.fst := fun op hop hmine => findNotes_of_mem hop (.inl hmine)
  cases hfound : SaplingWallet.findNotes keys sent tx with
  | nil =>
    refine ⟨wallet, rfl, rfl, rfl, fun op nd h => h, fun op nd h => .inl h, fun tx' htx' op hop hmine => ?_⟩
    rw [List.mem_singleton.mp htx'] at hop
    have := hmem op hop hmine
    rw [hfound] at this
    cases this
  | cons e es =>
    rw [hfound] at hmem
    have hat : ∀ e' ∈ wallet.mapSaplingNoteData.toList, e'.1.hash = tx.hash → e'.1 ∈ (e :: es).map Prod.fst := by
      intro e' he' hhash
      have hget := FinMap.mem_toList.mp he'
      rw [← hfound]
      refine findNotes_of_mem (hrec.outputs _ _ hget hhash) ?_
      cases hkey : keys e'.1 with
      | some ivk => exact .inl rfl
      | none => exact .inr (hrec.sent _ _ hget hhash ((hivk _ _ hget).trans hkey))
    have hval : ∀ a ∈ e :: es, SaplingWallet.keepWitnesses wallet.mapSaplingNoteData[a.1]? a.2 =
        SaplingWallet.keepWitnesses wallet.mapSaplingNoteData[a.1]? { ivk := keys a.1 } := by
      intro a ha
      rw [(mem_findNotes (hfound ▸ ha)).2]
    have hget := FinMap.get_foldl_insert (g := fun k =>
      SaplingWallet.keepWitnesses wallet.mapSaplingNoteData[k]? { ivk := keys k }) (e :: es) wallet.mapSaplingNoteData hval
    dsimp only
    rw [require_pos hat, ok_bind]
    refine ⟨_, rfl, rfl, rfl, fun op nd hop => ?_, fun op nd hop => ?_, fun tx' htx' op hop hmine => ?_⟩
    · rw [hget, hop, keepWitnesses_some (hivk op nd hop)]
      exact ite_self _
    · rw [hget] at hop
      split_ifs at hop with hnew
      · cases hold : wallet.mapSaplingNoteData[op]? with
        | some old =>
          rw [hold, keepWitnesses_some (hivk op old hold)] at hop
          exact .inl hop
        | none =>
          rw [hold] at hop
          cases hop
          obtain ⟨a, ha, rfl⟩ := List.mem_map.mp hnew
          refine .inr ⟨rfl, rfl, ?_⟩
          rw [hash_of_mem_saplingOutputs (mem_findNotes (hfound ▸ ha)).1]
          exact List.mem_singleton.mpr rfl
      · exact .inl hop
    · rw [List.mem_singleton.mp htx'] at hop
      rw [hget, if_pos (hmem op hop hmine)]
      rfl

theorem Synced.refl : Synced keys wallet wallet [] :=
  ⟨rfl, rfl, fun _ _ h => h, fun _ _ h => .inl h, List.forall_mem_nil _⟩

theorem Synced.trans {wallet₁ wallet₂ : SaplingWallet} (h : Synced keys wallet wallet₁ [tx])
    (h' : Synced keys wallet₁ wallet₂ txs) : Synced keys wallet wallet₂ (tx :: txs) where
  cache := h'.cache.trans h.cache
  height := h'.height.trans h.height
  old op nd hop := h'.old op nd (h.old op nd hop)
  new op nd hop := by
    rcases h'.new op nd hop with hold | ⟨hnone, heq, hhash⟩
    · rcases h.new op nd hold with hold | ⟨hnone, heq, hhash⟩
      · exact .inl hold
      · exact .inr ⟨hnone, heq, by rw [List.mem_singleton.mp hhash]; exact List.mem_cons_self⟩
    · refine .inr ⟨?_, heq, List.mem_cons_of_mem _ hhash⟩
      cases hold : wallet.mapSaplingNoteData[op]? with
      | none => rfl
      | some old =>
        rw [h.old op old hold] at hnone
        cases hnone
  found := by
    refine List.forall_mem_cons.mpr ⟨fun op hop hmine => ?_, h'.found⟩
    obtain ⟨nd, hnd⟩ := Option.isSome_iff_exists.mp (h.found tx List.mem_cons_self op hop hmine)
    exact Option.isSome_iff_exists.mpr ⟨nd, h'.old op nd hnd⟩

/-- Syncing the transactions of a block finds every note of the wallet in it. -/
theorem synced_foldlM (hdistinct : (txs.map CTransaction.hash).Nodup)
    (hivk : ∀ (op : SaplingOutPoint) nd, wallet.mapSaplingNoteData[op]? = some nd → nd.ivk = keys op)
    (hrec : ∀ tx ∈ txs, Recognised sent wallet tx) :
    ∃ wallet', txs.foldlM (fun wallet tx => wallet.syncTransaction keys sent tx) wallet = .ok wallet' ∧
      Synced keys wallet wallet' txs := by
  induction txs generalizing wallet with
  | nil => exact ⟨wallet, rfl, .refl⟩
  | cons tx txs ih =>
    rw [List.map_cons, List.nodup_cons] at hdistinct
    obtain ⟨wallet₁, hok, h₁⟩ := synced_syncTransaction hivk (hrec tx List.mem_cons_self)
    have hivk₁ : ∀ (op : SaplingOutPoint) nd, wallet₁.mapSaplingNoteData[op]? = some nd → nd.ivk = keys op := by
      intro op nd hop
      rcases h₁.new op nd hop with hold | ⟨-, rfl, -⟩
      · exact hivk op nd hold
      · rfl
    -- the new notes belong to the first transaction
    have hback : ∀ tx' ∈ txs, ∀ (op : SaplingOutPoint) nd, wallet₁.mapSaplingNoteData[op]? = some nd →
        op.hash = tx'.hash → wallet.mapSaplingNoteData[op]? = some nd := by
      intro tx' htx' op nd hop hhash
      rcases h₁.new op nd hop with hold | ⟨-, -, hnew⟩
      · exact hold
      · rw [List.map_singleton, List.mem_singleton, hhash] at hnew
        exact absurd (hnew ▸ List.mem_map_of_mem htx') hdistinct.1
    have hrec₁ : ∀ tx' ∈ txs, Recognised sent wallet₁ tx' := by
      intro tx' htx'
      have hrec' := hrec tx' (List.mem_cons_of_mem tx htx')
      exact ⟨fun op nd hop hhash => hrec'.outputs op nd (hback tx' htx' op nd hop hhash) hhash,
        fun op nd hop hhash => hrec'.sent op nd (hback tx' htx' op nd hop hhash) hhash⟩
    obtain ⟨wallet₂, hok₂, h₂⟩ := ih hdistinct.2 hivk₁ hrec₁
    refine ⟨wallet₂, ?_, h₁.trans h₂⟩
    rw [List.foldlM_cons, hok, ok_bind]
    exact hok₂

/-- The notes found are in order: the new ones are not in the chain, since the wallet has those that are. -/
theorem WalletOk.synced (h : WalletOk H D p keys base os c t wallet) (hs : Synced keys wallet wallet' txs) :
    WalletOk H D p keys base os c t wallet' where
  cache := hs.cache.trans h.cache
  notes op nd hop := by
    rcases hs.new op nd hop with hold | ⟨hnone, rfl, -⟩
    · exact h.notes op nd hold
    · have habs : ({ ivk := keys op } : SaplingNoteData).isMyNote = true → op ∉ outpointsOf os := by
        intro hmine hmem
        have := h.complete op hmem hmine
        rw [hnone] at this
        cases this
      exact ⟨rfl, fun _ => rfl, fun hmine => .absent (habs hmine), fun hmine => .inr ⟨habs hmine, .inl rfl⟩⟩
  complete op hop hmine := by
    obtain ⟨nd, hnd⟩ := Option.isSome_iff_exists.mp (h.complete op hop hmine)
    exact Option.isSome_iff_exists.mpr ⟨nd, hs.old op nd hnd⟩

/-! ## Reading the witnesses -/

/-- Witnesses that are given out have one root, which is the anchor that comes with them. -/
structure SameAnchor (H : MerkleHash) (D : Nat) (root : uint256)
    (r : List (Option IncrementalWitness) × Option uint256) : Prop where
  witness : ∀ w, some w ∈ r.1 → w.root H D = root
  anchor : ∀ rt, r.2 = some rt → rt = root

theorem WalletOk.getSaplingNoteWitnesses (h : WalletOk H D p keys base os c t wallet) (hD : 1 ≤ D)
    (hpos : outpointsOf os ≠ [] → 1 ≤ c) (hcap : (leavesOver base os).length ≤ 2 ^ D) (notes : List SaplingOutPoint) :
    ∃ r, wallet.getSaplingNoteWitnesses H D notes = .ok r ∧ SameAnchor H D (H.rootOf D (leavesOver base os)) r := by
  have hroot : ∀ (note : SaplingOutPoint) w, (wallet.mapSaplingNoteData[note]?.bind fun nd => nd.witnesses.head?) = some w →
      w.root H D = H.rootOf D (leavesOver base os) := by
    intro note w hw
    obtain ⟨nd, hnd, hhead⟩ := Option.bind_eq_some_iff.mp hw
    have hok := h.notes note nd hnd
    have hne : nd.witnesses ≠ [] := fun hnil => by rw [hnil] at hhead; cases hhead
    have hmine : nd.isMyNote = true := Option.isSome_iff_ne_none.mpr fun hext => hne (hok.external hext)
    have hheld := hok.held hmine
    have hmem : note ∈ outpointsOf os := by
      by_contra habs
      exact hne (hheld.eq_nil habs)
    obtain ⟨w', ws', before, cm, later, stack, hconf, hcons, hwit⟩ := hheld.front hmem (hpos (List.ne_nil_of_mem hmem))
    rw [hcons] at hhead
    cases hhead
    rw [hconf.leavesOver_eq] at hcap ⊢
    exact hwit.root hD hcap
  refine (Outcome.foldlM (I := fun _ => SameAnchor H D (H.rootOf D (leavesOver base os)))
    (fun pre note post s _ hs => ?_) ⟨fun w hw => (by cases hw), fun rt hrt => (by cases hrt)⟩).exists_ok
  unfold SaplingWallet.collectWitness
  split
  · refine ⟨fun w hw => ?_, hs.anchor⟩
    rcases List.mem_append.mp hw with hold | hnew
    · exact hs.witness w hold
    · cases List.mem_singleton.mp hnew
  · rename_i w hw
    have hrt : ∀ rt, s.2 = some rt → rt = w.root H D := fun rt hs' => (hs.anchor rt hs').trans (hroot note w hw).symm
    rw [require_pos hrt, ok_bind]
    refine ⟨fun w₁ hw₁ => ?_, fun rt hs' => ?_⟩
    · rcases List.mem_append.mp hw₁ with hold | hnew
      · exact hs.witness w₁ hold
      · cases List.mem_singleton.mp hnew
        exact hroot note w hw
    · cases hs'
      exact hroot note w hw

end Wallet

end TrumpCoin
