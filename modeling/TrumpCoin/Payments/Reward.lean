import TrumpCoin.Consensus

/-!
# Block rewards

The three reward schedules: `GetBlockValue` and `GetPatriotnodePayment` of `validation.cpp` and `rewward` of the
wallet.
-/

namespace TrumpCoin

variable (nHeight : Int)

def getBlockValue : Int :=
  if nHeight = 0 then 6600000 * COIN
  else if 0 < nHeight ∧ nHeight ≤ 3000 then 1 * COIN
  else if 3000 < nHeight ∧ nHeight ≤ 100000 then 1 * COIN
  else if 100000 < nHeight ∧ nHeight ≤ 200000 then 2 * COIN
  else if 200000 < nHeight ∧ nHeight ≤ 300000 then 3 * COIN
  else if 300000 < nHeight ∧ nHeight ≤ 400000 then 4 * COIN
  else if 400000 < nHeight ∧ nHeight ≤ 500000 then 5 * COIN
  else if 500000 < nHeight ∧ nHeight ≤ 600000 then 6 * COIN
  else if 600000 < nHeight ∧ nHeight ≤ 700000 then 7 * COIN
  else if 700000 < nHeight ∧ nHeight ≤ 800000 then 8 * COIN
  else if 800000 < nHeight ∧ nHeight ≤ 900000 then 9 * COIN
  else if 900000 < nHeight ∧ nHeight ≤ 1000000 then 10 * COIN
  else if 1000000 < nHeight ∧ nHeight ≤ 1100000 then 9 * COIN
  else if 1100000 < nHeight ∧ nHeight ≤ 1200000 then 8 * COIN
  else if 1200000 < nHeight ∧ nHeight ≤ 1300000 then 7 * COIN
  else if 1300000 < nHeight ∧ nHeight ≤ 2200000 then 3 * COIN
  else 1 * COIN

/-- `0.7 * k * COIN`, a product of doubles, cut to an integer. For three, six and seven the product lies just below
the whole number. -/
def seventyPercent : Nat → Int
  | 1 => 70000000
  | 2 => 140000000
  | 3 => 209999999
  | 4 => 280000000
  | 5 => 350000000
  | 6 => 419999999
  | 7 => 489999999
  | 8 => 560000000
  | 9 => 630000000
  | _ => 700000000

/-- The factor of `0.7 * COIN` in the branches of `GetPatriotnodePayment`. -/
def patriotnodeUnits : Nat :=
  if 3000 < nHeight ∧ nHeight ≤ 100000 then 1
  else if nHeight ≤ 200000 then 2
  else if nHeight ≤ 300000 then 3
  else if nHeight ≤ 400000 then 4
  else if nHeight ≤ 500000 then 5
  else if nHeight ≤ 600000 then 6
  else if nHeight ≤ 700000 then 7
  else if nHeight ≤ 800000 then 8
  else if nHeight ≤ 900000 then 9
  else if nHeight ≤ 1000000 then 10
  else if nHeight ≤ 1100000 then 9
  else if nHeight ≤ 1200000 then 8
  else if nHeight ≤ 1300000 then 7
  else if nHeight ≤ 2200000 then 3
  else 1

def getPatriotnodePayment : Int := seventyPercent (patriotnodeUnits nHeight)

def DEFAULT_BLOCK_MAX_SIZE : Int := 950000

def COIM : Int := DEFAULT_BLOCK_MAX_SIZE * CENT * 20

def rewward : Int :=
  if nHeight = 0 then 6600000 * COIN
  else if 0 < nHeight ∧ nHeight ≤ 3000 then 1 * COIN
  else if 3000 < nHeight ∧ nHeight ≤ 100000 then 1 * COIN
  else if 100000 < nHeight ∧ nHeight ≤ 200000 then 2 * COIN
  else if 200000 < nHeight ∧ nHeight ≤ 300000 then 3 * COIN
  else if 300000 < nHeight ∧ nHeight ≤ 400000 then 4 * COIN
  else if 400000 < nHeight ∧ nHeight ≤ 500000 then 5 * COIN
  else if 500000 < nHeight ∧ nHeight ≤ 600000 then 6 * COIN
  else if 600000 < nHeight ∧ nHeight ≤ 700000 then 7 * COIN
  else if 700000 < nHeight ∧ nHeight ≤ 800000 then 8 * COIN
  else if 800000 < nHeight ∧ nHeight ≤ 900000 then 9 * COIN
  else if 900000 < nHeight ∧ nHeight ≤ 1000000 then 10 * COIN
  else if 1000000 < nHeight ∧ nHeight ≤ 1100000 then 9 * COIN
  else if 1100000 < nHeight ∧ nHeight ≤ 1200000 then 8 * COIN
  else if 1200000 < nHeight ∧ nHeight ≤ 1300000 then 7 * COIN
  else if 1300000 < nHeight ∧ nHeight ≤ 1310000 then 3 * COIN
  else if 1310000 < nHeight ∧ nHeight ≤ 1310010 then 3 * COIM
  else if 1310010 < nHeight ∧ nHeight ≤ 1400000 then 3 * COIN
  else if 1400000 < nHeight ∧ nHeight ≤ 1500000 then 3 * COIN
  else if 1500000 < nHeight ∧ nHeight ≤ 1600000 then 3 * COIN
  else if 1600000 < nHeight ∧ nHeight ≤ 1700000 then 3 * COIN
  else if 1700000 < nHeight ∧ nHeight ≤ 1800000 then 3 * COIN
  else if 1800000 < nHeight ∧ nHeight ≤ 1900000 then 3 * COIN
  else if 1900000 < nHeight ∧ nHeight ≤ 2000000 then 3 * COIN
  else if 2000000 < nHeight ∧ nHeight ≤ 2100000 then 3 * COIN
  else if 2100000 < nHeight ∧ nHeight ≤ 2200000 then 3 * COIN
  else if 2300000 < nHeight ∧ nHeight ≤ 2400000 then 1 * COIN
  else 1 * COIN

theorem getPatriotnodePayment_pos : 0 < getPatriotnodePayment nHeight := by
  unfold getPatriotnodePayment seventyPercent
  split <;> decide

end TrumpCoin
