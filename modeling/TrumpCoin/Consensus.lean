import TrumpCoin.Primitives
import TrumpCoin.Lib.Fallible

/-!
# Chain parameters and validation results

`consensus/params.h`, `consensus/upgrades.cpp`, `chainparams.cpp` and `consensus/validation.h`, as far as
the modelled code reads them. The modelled functions are stated for arbitrary parameters.
-/

namespace TrumpCoin

open Lib

def COIN : Int := 100000000

def CENT : Int := 1000000

/-! ## Network upgrades -/

inductive UpgradeIndex where
  | BASE_NETWORK | UPGRADE_POS | UPGRADE_POS_V2 | UPGRADE_ZC | UPGRADE_ZC_V2 | UPGRADE_BIP65 | UPGRADE_ZC_PUBLIC
  | UPGRADE_V3_4 | UPGRADE_V4_0 | UPGRADE_V5_0 | UPGRADE_V5_2 | UPGRADE_V5_3 | UPGRADE_V6_0 | UPGRADE_TESTDUMMY
deriving DecidableEq

/-- `CBaseChainParams::Network`. -/
inductive NetworkID where
  | MAIN | TESTNET | REGTEST
deriving DecidableEq

def NO_ACTIVATION_HEIGHT : Int := -1

structure CChainParams where
  networkID : NetworkID
  /-- `vUpgrades[idx].nActivationHeight`. -/
  nActivationHeight : UpgradeIndex → Int
  nPNCollateralAmt : Int
  nMaxMoneyOut : Int
  nBudgetCycleBlocks : Int
  nCoinbaseMaturity : Int
  heightLastInvalidUTXO : Int
  zcTimeStart : Nat

namespace CChainParams

variable (p : CChainParams)

def isRegTestNet : Bool := p.networkID = .REGTEST

def networkUpgradeActive (nHeight : Int) (idx : UpgradeIndex) : Bool :=
  p.nActivationHeight idx ≠ NO_ACTIVATION_HEIGHT ∧ p.nActivationHeight idx ≤ nHeight

def isActivationHeight (nHeight : Int) (idx : UpgradeIndex) : Bool :=
  idx ≠ .BASE_NETWORK ∧ 0 ≤ nHeight ∧ nHeight = p.nActivationHeight idx

def patriotnodeCollateralMinConf : Int := if p.isRegTestNet then 1 else 15

/-- `MoneyRange`. The source compares with the double `2.415 * nMaxMoneyOut`. -/
def moneyRange (nValue : Int) : Bool := 0 ≤ nValue ∧ 1000 * nValue ≤ 2415 * p.nMaxMoneyOut

def skipInvalidUTXOS (nHeight : Int) : Bool :=
  p.networkID = .MAIN ∧ p.networkUpgradeActive nHeight .UPGRADE_ZC = true ∧ nHeight ≤ p.heightLastInvalidUTXO

end CChainParams

def CMainParams : CChainParams where
  networkID := .MAIN
  nActivationHeight
    | .BASE_NETWORK => 0
    | .UPGRADE_TESTDUMMY => NO_ACTIVATION_HEIGHT
    | .UPGRADE_POS => 3001
    | .UPGRADE_POS_V2 => 9615800
    | .UPGRADE_ZC => 9863787
    | .UPGRADE_ZC_V2 => 9153160
    | .UPGRADE_BIP65 => 9808634
    | .UPGRADE_ZC_PUBLIC => 9880000
    | .UPGRADE_V3_4 => 9967000
    | .UPGRADE_V4_0 => 9153200
    | .UPGRADE_V5_0 => 9700500
    | .UPGRADE_V5_2 => 9927000
    | .UPGRADE_V5_3 => 9014000
    | .UPGRADE_V6_0 => NO_ACTIVATION_HEIGHT
  nPNCollateralAmt := 5000 * COIN
  nMaxMoneyOut := 18000000 * COIN
  nBudgetCycleBlocks := 43200
  nCoinbaseMaturity := 90
  heightLastInvalidUTXO := 894538
  zcTimeStart := 1508214600

/-- The last height with invalid outpoints is below the activation that the skipping waits for. -/
theorem CMainParams_skipInvalidUTXOS (nHeight : Int) : CMainParams.skipInvalidUTXOS nHeight = false := by
  rw [CChainParams.skipInvalidUTXOS, decide_eq_false_iff_not]
  rintro ⟨-, hactive, hlast⟩
  obtain ⟨-, hle⟩ := of_decide_eq_true hactive
  simp only [CMainParams] at hle hlast
  omega

def mainnetDefaultPort : BitVec 16 := 15110

/-! ## How a check or an update stops -/

/-- The codes of `reject` messages. -/
inductive RejectCode where
  | REJECT_MALFORMED | REJECT_INVALID | REJECT_OBSOLETE | REJECT_DUPLICATE | REJECT_NONSTANDARD | REJECT_DUST
  | REJECT_INSUFFICIENTFEE | REJECT_CHECKPOINT
  /-- the zero that stands for no code -/
  | unset
deriving DecidableEq

/-- Why a modelled function did not return its result. -/
inductive Fault where
  /-- `CValidationState::DoS(nDoS, false, chRejectCode, strRejectReason)` -/
  | reject (nDoS : Nat) (chRejectCode : RejectCode) (strRejectReason : String)
  /-- a thrown `std::exception`; the text is the message without its formatted arguments -/
  | exception (what : String)
  /-- `CValidationState::Error`; `AbortNode` also shuts the node down -/
  | error (strRejectReason : String)
  /-- a failing `assert`: the process stops -/
  | assertFailure (site : String)
  /-- a null pointer is dereferenced -/
  | nullDeref (site : String)
deriving DecidableEq

namespace Fault

/-- The validation state reports a rejection: nothing was thrown and no assertion failed. -/
def IsReject : Fault → Prop
  | reject _ _ _ => True
  | _ => False

end Fault

abbrev Result (α : Type) := Except Fault α

/-- `state.DoS(nDoS, false, REJECT_INVALID, reason)`. -/
def dosInvalid {α : Type} (nDoS : Nat) (reason : String) : Result α :=
  .error (.reject nDoS .REJECT_INVALID reason)

end TrumpCoin
