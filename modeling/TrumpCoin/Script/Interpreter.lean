import TrumpCoin.Consensus

/-!
# The script machine

`EvalScript` and `VerifyScript` of `script/interpreter.cpp`, with the instruction reader and the numbers of
`script/script.h`. A stack is a list with its top first. The hash functions, `CPubKey::Verify` and `SignatureHash` are
parameters; everything else, encodings and limits included, is as in the source.

* `getOp`: reading one instruction;
* `execOp`: the effect of one instruction; `perform`, `step`: with the branches and the checks around it;
* `evalScript`, `verifyScript`: running scripts.
-/

namespace TrumpCoin

open Lib

inductive ScriptError where
  | UNKNOWN_ERROR | EVAL_FALSE | OP_RETURN
  | SCRIPT_SIZE | PUSH_SIZE | OP_COUNT | STACK_SIZE | SIG_COUNT | PUBKEY_COUNT
  | VERIFY | EQUALVERIFY | CHECKCOLDSTAKEVERIFY | CHECKMULTISIGVERIFY | CHECKSIGVERIFY | NUMEQUALVERIFY
  | BAD_OPCODE | DISABLED_OPCODE | INVALID_STACK_OPERATION | INVALID_ALTSTACK_OPERATION | UNBALANCED_CONDITIONAL
  | NEGATIVE_LOCKTIME | UNSATISFIED_LOCKTIME
  | SIG_HASHTYPE | SIG_DER | MINIMALDATA | SIG_PUSHONLY | SIG_HIGH_S | SIG_NULLDUMMY | PUBKEYTYPE
  | DISCOURAGE_UPGRADABLE_NOPS
deriving DecidableEq

/-- The flags `SCRIPT_VERIFY_*` that the interpreter reads. -/
structure ScriptFlags where
  fP2SH : Bool := false
  fStrictEnc : Bool := false
  fDerSig : Bool := false
  fLowS : Bool := false
  fNullDummy : Bool := false
  fSigPushOnly : Bool := false
  fMinimalData : Bool := false
  fDiscourageUpgradableNops : Bool := false
  fCheckLockTimeVerify : Bool := false
deriving DecidableEq

/-- The flags with which `ConnectBlock` checks a transaction. -/
def consensusFlags (fCLTVIsActivated : Bool) : ScriptFlags :=
  { fP2SH := true, fDerSig := true, fCheckLockTimeVerify := fCLTVIsActivated }

abbrev ScriptResult := Except ScriptError

/-! ## Opcodes -/

def OP_PUSHDATA1 : UInt8 := 0x4c
def OP_PUSHDATA2 : UInt8 := 0x4d
def OP_PUSHDATA4 : UInt8 := 0x4e
def OP_1NEGATE : UInt8 := 0x4f
def OP_1 : UInt8 := 0x51
def OP_16 : UInt8 := 0x60

inductive UnaryOp where
  | add1 | sub1 | negate | abs | not | notEqual0
deriving DecidableEq

inductive BinaryOp where
  | add | sub | boolAnd | boolOr | numEqual | nupNotEqual | lessThan | greaterThan | lessThanOrEqual
  | greaterThanOrEqual | min | max
deriving DecidableEq

inductive HashOp where
  | ripemd160 | sha1 | sha256 | hash160 | hash256
deriving DecidableEq

/-- The instructions of the `switch` in `EvalScript`; a push (`0x00` to `0x4e`) does not reach it. -/
inductive OpCode where
  | number (n : Int)
  | nop | upgradableNop | checkLockTimeVerify
  | opIf | opNotIf | opElse | opEndIf | verify | opReturn
  | toAltStack | fromAltStack | drop2 | dup2 | dup3 | over2 | rot2 | swap2 | ifDup | depth | drop | dup | nip | over
  | pick | roll | rot | swap | tuck | size
  | equal | equalVerify
  | unary (op : UnaryOp) | binary (op : BinaryOp) | numEqualVerify | within
  | hash (op : HashOp)
  | codeSeparator | checkSig | checkSigVerify | checkMultiSig | checkMultiSigVerify
  | checkColdStakeVerify (fAllowLastOutputFree : Bool)
  | disabled | invalid
deriving DecidableEq

/-- The instructions that are more than a number, by their codes. -/
def opTable : List (Nat × OpCode) :=
  [(0x61, .nop), (0x63, .opIf), (0x64, .opNotIf), (0x67, .opElse), (0x68, .opEndIf), (0x69, .verify), (0x6a, .opReturn),
    (0x6b, .toAltStack), (0x6c, .fromAltStack), (0x6d, .drop2), (0x6e, .dup2), (0x6f, .dup3), (0x70, .over2),
    (0x71, .rot2), (0x72, .swap2), (0x73, .ifDup), (0x74, .depth), (0x75, .drop), (0x76, .dup), (0x77, .nip),
    (0x78, .over), (0x79, .pick), (0x7a, .roll), (0x7b, .rot), (0x7c, .swap), (0x7d, .tuck),
    (0x7e, .disabled), (0x7f, .disabled), (0x80, .disabled), (0x81, .disabled), (0x82, .size),
    (0x83, .disabled), (0x84, .disabled), (0x85, .disabled), (0x86, .disabled), (0x87, .equal), (0x88, .equalVerify),
    (0x8b, .unary .add1), (0x8c, .unary .sub1), (0x8d, .disabled), (0x8e, .disabled), (0x8f, .unary .negate),
    (0x90, .unary .abs), (0x91, .unary .not), (0x92, .unary .notEqual0), (0x93, .binary .add), (0x94, .binary .sub),
    (0x95, .disabled), (0x96, .disabled), (0x97, .disabled), (0x98, .disabled), (0x99, .disabled),
    (0x9a, .binary .boolAnd), (0x9b, .binary .boolOr), (0x9c, .binary .numEqual), (0x9d, .numEqualVerify),
    (0x9e, .binary .nupNotEqual), (0x9f, .binary .lessThan), (0xa0, .binary .greaterThan),
    (0xa1, .binary .lessThanOrEqual), (0xa2, .binary .greaterThanOrEqual), (0xa3, .binary .min), (0xa4, .binary .max),
    (0xa5, .within), (0xa6, .hash .ripemd160), (0xa7, .hash .sha1), (0xa8, .hash .sha256), (0xa9, .hash .hash160),
    (0xaa, .hash .hash256), (0xab, .codeSeparator), (0xac, .checkSig), (0xad, .checkSigVerify),
    (0xae, .checkMultiSig), (0xaf, .checkMultiSigVerify), (0xb0, .upgradableNop), (0xb1, .checkLockTimeVerify),
    (0xb2, .upgradableNop), (0xb3, .upgradableNop), (0xb4, .upgradableNop), (0xb5, .upgradableNop),
    (0xb6, .upgradableNop), (0xb7, .upgradableNop), (0xb8, .upgradableNop), (0xb9, .upgradableNop),
    (0xd1, .checkColdStakeVerify true), (0xd2, .checkColdStakeVerify false)]

def decodeOp (opcode : UInt8) : OpCode :=
  if opcode = OP_1NEGATE ∨ OP_1 ≤ opcode ∧ opcode ≤ OP_16 then .number ((opcode.toNat : Int) - 0x50)
  else (opTable.lookup opcode.toNat).getD .invalid

namespace CScript

/-- The length of the data that a push with a given code announces, and what follows the length. -/
def readPushSize (opcode : UInt8) (pc : CScript) : Option (Nat × CScript) :=
  if opcode < OP_PUSHDATA1 then some (opcode.toNat, pc)
  else
    let nBytes := if opcode = OP_PUSHDATA1 then 1 else if opcode = OP_PUSHDATA2 then 2 else 4
    if pc.length < nBytes then none else some (Codec.ofLE (pc.take nBytes), pc.drop nBytes)

/-- `GetOp`: the code of the first instruction, its data and the rest of the script. -/
def getOp : CScript → Option (UInt8 × Bytes × CScript)
  | [] => none
  | opcode :: pc =>
    if opcode ≤ OP_PUSHDATA4 then
      (readPushSize opcode pc).bind fun r =>
        if r.2.length < r.1 then none else some (opcode, r.2.take r.1, r.2.drop r.1)
    else some (opcode, [], pc)

/-- `IsPushOnly`; `fuel` bounds the number of instructions. -/
def isPushOnlyLoop : Nat → CScript → Bool
  | _, [] => true
  | 0, _ => false
  | fuel + 1, pc =>
    match getOp pc with
    | none => false
    | some (opcode, _, next) => decide (opcode ≤ OP_16) && isPushOnlyLoop fuel next

def isPushOnly (s : CScript) : Bool := isPushOnlyLoop s.length s

/-- `CScript(b)`: the script that pushes `b`. -/
def pushing (b : Bytes) : CScript :=
  if b.length < 0x4c then UInt8.ofNat b.length :: b
  else if b.length ≤ 0xff then OP_PUSHDATA1 :: UInt8.ofNat b.length :: b
  else if b.length ≤ 0xffff then OP_PUSHDATA2 :: (Codec.leBytes 2 b.length ++ b)
  else OP_PUSHDATA4 :: (Codec.leBytes 4 b.length ++ b)

/-- The script without the copies of `b` at its start. -/
def dropLeading (b : CScript) : Nat → CScript → CScript
  | 0, pc => pc
  | fuel + 1, pc => if b.isPrefixOf pc then dropLeading b fuel (pc.drop b.length) else pc

/-- The loop of `FindAndDelete`, for a script `b` that is not empty. -/
def findAndDeleteLoop (b : CScript) : Nat → CScript → CScript
  | 0, pc => pc
  | fuel + 1, pc =>
    let pc := dropLeading b pc.length pc
    match getOp pc with
    | none => pc
    | some (_, _, next) => pc.take (pc.length - next.length) ++ findAndDeleteLoop b fuel next

def findAndDelete (s b : CScript) : CScript := findAndDeleteLoop b (s.length + 1) s

end CScript

/-! ## Numbers and truth values -/

/-- `CastToBool`: some byte is not zero, the sign of a negative zero apart. -/
def castToBool (vch : Bytes) : Bool :=
  match vch.reverse with
  | [] => false
  | last :: rest => rest.any (· != 0) || (last != 0 && last != 0x80)

def ofBool (b : Bool) : Bytes := if b then [1] else []

namespace CScriptNum

/-- The number is encoded with as few bytes as possible. -/
def isMinimal (vch : Bytes) : Bool :=
  match vch.reverse with
  | [] => true
  | last :: rest => last &&& 0x7f != 0 || rest.head?.any (fun b => b &&& 0x80 != 0)

def setVch (vch : Bytes) : Int :=
  match vch.getLast? with
  | none => 0
  | some last =>
    let result : Int := Codec.ofLE vch
    if last &&& 0x80 != 0 then -(result - 0x80 * 256 ^ (vch.length - 1)) else result

/-- `CScriptNum(vch, fRequireMinimal, nMaxNumSize)`; the exceptions it throws end the script. -/
def read (fRequireMinimal : Bool) (nMaxNumSize : Nat) (vch : Bytes) : ScriptResult Int :=
  if nMaxNumSize < vch.length then .error .UNKNOWN_ERROR
  else if fRequireMinimal && !isMinimal vch then .error .UNKNOWN_ERROR
  else .ok (setVch vch)

/-- The bytes of a number that is less than `256 ^ n`, without leading zeros. -/
def absBytes : (n absvalue : Nat) → Bytes
  | 0, _ => []
  | n + 1, absvalue => if absvalue = 0 then [] else UInt8.ofNat absvalue :: absBytes n (absvalue / 256)

def serialize (value : Int) : Bytes :=
  let result := absBytes 8 value.natAbs
  match result.getLast? with
  | none => []
  | some last =>
    if last &&& 0x80 != 0 then result ++ [if value < 0 then 0x80 else 0]
    else if value < 0 then result.dropLast ++ [last ||| 0x80]
    else result

end CScriptNum

/-! ## Keys and signatures -/

/-- The hash functions and signature primitives. -/
structure ScriptCrypto where
  ripemd160 : Bytes → Bytes
  sha1 : Bytes → Bytes
  sha256 : Bytes → Bytes
  verify : (pubkey : Bytes) → (hash : uint256) → (vchSig : Bytes) → Bool
  checkLowS : Bytes → Bool

namespace ScriptCrypto

def hash160 (k : ScriptCrypto) (b : Bytes) : Bytes := k.ripemd160 (k.sha256 b)
def hash256 (k : ScriptCrypto) (b : Bytes) : Bytes := k.sha256 (k.sha256 b)

end ScriptCrypto

def isValidPubKey (vch : Bytes) : Bool := vch.head?.any fun chHeader => CScript.pubKeyLen chHeader == vch.length

def isCompressedOrUncompressedPubKey (vch : Bytes) : Bool :=
  vch.head?.any fun b => b == 0x04 && vch.length == 65 || (b == 0x02 || b == 0x03) && vch.length == 33

def isValidSignatureEncoding (sig : Bytes) : Bool :=
  let at' (i : Nat) : Nat := (sig.getD i 0).toNat
  let lenR := at' 3
  let lenS := at' (5 + lenR)
  decide (9 ≤ sig.length ∧ sig.length ≤ 73 ∧ at' 0 = 0x30 ∧ at' 1 = sig.length - 3 ∧ 5 + lenR < sig.length ∧
    lenR + lenS + 7 = sig.length ∧ at' 2 = 0x02 ∧ lenR ≠ 0 ∧ at' 4 < 0x80 ∧
    ¬(1 < lenR ∧ at' 4 = 0 ∧ at' 5 < 0x80) ∧ at' (lenR + 4) = 0x02 ∧ lenS ≠ 0 ∧ at' (lenR + 6) < 0x80 ∧
    ¬(1 < lenS ∧ at' (lenR + 6) = 0 ∧ at' (lenR + 7) < 0x80))

def isDefinedHashtypeSignature (vchSig : Bytes) : Bool :=
  vchSig.getLast?.any fun b => let nHashType := b &&& 0x7f; decide (1 ≤ nHashType ∧ nHashType ≤ 3)

def checkSignatureEncoding (k : ScriptCrypto) (flags : ScriptFlags) (vchSig : Bytes) : ScriptResult Unit :=
  if vchSig = [] then .ok ()
  else if (flags.fDerSig || flags.fLowS || flags.fStrictEnc) && !isValidSignatureEncoding vchSig then .error .SIG_DER
  else if flags.fLowS && !k.checkLowS vchSig.dropLast then .error .SIG_HIGH_S
  else if flags.fStrictEnc && !isDefinedHashtypeSignature vchSig then .error .SIG_HASHTYPE
  else .ok ()

def checkPubKeyEncoding (flags : ScriptFlags) (vchPubKey : Bytes) : ScriptResult Unit :=
  if flags.fStrictEnc && !isCompressedOrUncompressedPubKey vchPubKey then .error .PUBKEYTYPE else .ok ()

def checkMinimalPush (data : Bytes) (opcode : UInt8) : Bool :=
  match data with
  | [] => opcode == 0
  | [b] => if 1 ≤ b ∧ b ≤ 16 then opcode == OP_1 + (b - 1) else if b = 0x81 then opcode == OP_1NEGATE else opcode == 1
  | _ =>
    if data.length ≤ 75 then opcode.toNat == data.length
    else if data.length ≤ 255 then opcode == OP_PUSHDATA1
    else if data.length ≤ 65535 then opcode == OP_PUSHDATA2
    else true

def LOCKTIME_THRESHOLD : Int := 500000000

/-- `TransactionSignatureChecker`: the spending transaction, the input and the value it spends. -/
structure TransactionSignatureChecker where
  crypto : ScriptCrypto
  txTo : CTransaction
  nIn : Nat
  amount : Int
  /-- `SignatureHash` of this input for a script code and a hash type -/
  signatureHash : CScript → UInt8 → uint256

namespace TransactionSignatureChecker

variable (c : TransactionSignatureChecker)

def checkSig (vchSigIn vchPubKey : Bytes) (scriptCode : CScript) : Bool :=
  isValidPubKey vchPubKey && vchSigIn.getLast?.any fun nHashType =>
    c.crypto.verify vchPubKey (c.signatureHash scriptCode nHashType) vchSigIn.dropLast

def checkLockTime (nLockTime : Int) : Bool :=
  let txLockTime : Int := c.txTo.nLockTime.toNat
  (decide (txLockTime < LOCKTIME_THRESHOLD) == decide (nLockTime < LOCKTIME_THRESHOLD)) &&
    decide (nLockTime ≤ txLockTime) && (c.txTo.vin[c.nIn]?).any fun i => i.nSequence != 0xffffffff

/-- The loop of `CheckColdStake` over the outputs but the first, numbered: the value that goes back to the script, in
64 bits. -/
def coldStakeOutputs (fAllowLastOutputFree : Bool) (prevoutScript : CScript) (outs : Nat) :
    List (CTxOut × Nat) → Int64 → ScriptResult Int64
  | [], outValue => .ok outValue
  | (out, i) :: rest, outValue =>
    if out.scriptPubKey ≠ prevoutScript then
      if !fAllowLastOutputFree ∨ i ≠ outs - 1 ∨ outs < 3 then .error .CHECKCOLDSTAKEVERIFY
      else coldStakeOutputs fAllowLastOutputFree prevoutScript outs rest outValue
    else coldStakeOutputs fAllowLastOutputFree prevoutScript outs rest (outValue + Int64.ofInt out.nValue)

def checkColdStake (flags : ScriptFlags) (fAllowLastOutputFree : Bool) (prevoutScript : CScript)
    (stack : List Bytes) : ScriptResult Unit :=
  match stack with
  | [vchPubKeyHash, vchPubKey, vchSig] => do
    checkSignatureEncoding c.crypto flags vchSig
    checkPubKeyEncoding flags vchPubKey
    require .SCRIPT_SIZE (vchPubKeyHash.length = 20)
    require .CHECKCOLDSTAKEVERIFY (c.txTo.isCoinStake = true)
    require .CHECKCOLDSTAKEVERIFY (c.txTo.vin.length = 1)
    let outs := c.txTo.vout.length
    let outValue ← coldStakeOutputs fAllowLastOutputFree prevoutScript outs (c.txTo.vout.zipIdx.drop 1) 0
    require .CHECKCOLDSTAKEVERIFY (c.amount ≤ outValue.toInt)
  | _ => .error .INVALID_STACK_OPERATION

end TransactionSignatureChecker

/-! ## Instructions -/

def MAX_SCRIPT_ELEMENT_SIZE : Nat := 520
def MAX_PUBKEYS_PER_MULTISIG : Int := 20
def MAX_OPS : Nat := 201
def MAX_STACK_SIZE : Nat := 1000

/-- The variables of `EvalScript`. -/
structure ScriptState where
  stack : List Bytes
  altstack : List Bytes := []
  /-- innermost conditional first -/
  vfExec : List Bool := []
  nOpCount : Nat := 0
  /-- the script from `pbegincodehash` on -/
  codeHash : CScript

namespace UnaryOp

def eval : UnaryOp → Int → Int
  | add1, n => n + 1
  | sub1, n => n - 1
  | negate, n => -n
  | abs, n => if n < 0 then -n else n
  | not, n => if n = 0 then 1 else 0
  | notEqual0, n => if n ≠ 0 then 1 else 0

end UnaryOp

namespace BinaryOp

def eval : BinaryOp → Int → Int → Int
  | add, a, b => a + b
  | sub, a, b => a - b
  | boolAnd, a, b => if a ≠ 0 ∧ b ≠ 0 then 1 else 0
  | boolOr, a, b => if a ≠ 0 ∨ b ≠ 0 then 1 else 0
  | numEqual, a, b => if a = b then 1 else 0
  | nupNotEqual, a, b => if a ≠ b then 1 else 0
  | lessThan, a, b => if a < b then 1 else 0
  | greaterThan, a, b => if b < a then 1 else 0
  | lessThanOrEqual, a, b => if a ≤ b then 1 else 0
  | greaterThanOrEqual, a, b => if b ≤ a then 1 else 0
  | min, a, b => if a < b then a else b
  | max, a, b => if b < a then a else b

end BinaryOp

def HashOp.eval (k : ScriptCrypto) : HashOp → Bytes → Bytes
  | ripemd160 => k.ripemd160
  | sha1 => k.sha1
  | sha256 => k.sha256
  | hash160 => k.hash160
  | hash256 => k.hash256

/-- An operation on the stack that fails only if there are too few elements. -/
def stackEffect (op : OpCode) (stack : List Bytes) : Option (List Bytes) :=
  match op, stack with
  | .drop2, _ :: _ :: s => some s
  | .dup2, x2 :: x1 :: s => some (x2 :: x1 :: x2 :: x1 :: s)
  | .dup3, x3 :: x2 :: x1 :: s => some (x3 :: x2 :: x1 :: x3 :: x2 :: x1 :: s)
  | .over2, x4 :: x3 :: x2 :: x1 :: s => some (x2 :: x1 :: x4 :: x3 :: x2 :: x1 :: s)
  | .rot2, x6 :: x5 :: x4 :: x3 :: x2 :: x1 :: s => some (x2 :: x1 :: x6 :: x5 :: x4 :: x3 :: s)
  | .swap2, x4 :: x3 :: x2 :: x1 :: s => some (x2 :: x1 :: x4 :: x3 :: s)
  | .ifDup, x :: s => some (if castToBool x then x :: x :: s else x :: s)
  | .depth, s => some (CScriptNum.serialize s.length :: s)
  | .drop, _ :: s => some s
  | .dup, x :: s => some (x :: x :: s)
  | .nip, x2 :: _ :: s => some (x2 :: s)
  | .over, x2 :: x1 :: s => some (x1 :: x2 :: x1 :: s)
  | .rot, x3 :: x2 :: x1 :: s => some (x1 :: x3 :: x2 :: s)
  | .swap, x2 :: x1 :: s => some (x1 :: x2 :: s)
  | .tuck, x2 :: x1 :: s => some (x2 :: x1 :: x2 :: s)
  | .size, x :: s => some (CScriptNum.serialize x.length :: x :: s)
  | .equal, x2 :: x1 :: s => some (ofBool (x1 == x2) :: s)
  | _, _ => none

variable (c : TransactionSignatureChecker) (flags : ScriptFlags)

/-- The loop of `OP_CHECKMULTISIG` over the signatures and keys that are left. -/
def checkSigs (scriptCode : CScript) : (sigs keys : List Bytes) → ScriptResult Bool
  | [], _ => .ok true
  | _, [] => .ok false
  | sig :: sigs, key :: keys => do
    checkSignatureEncoding c.crypto flags sig
    checkPubKeyEncoding flags key
    let sigs := if c.checkSig sig key scriptCode then sigs else sig :: sigs
    if keys.length < sigs.length then return false else checkSigs scriptCode sigs keys

variable (st : ScriptState)

/-- `OP_CHECKMULTISIG` without pushing its result: the result, the remaining stack and the number of keys. -/
def checkMultiSig : ScriptResult (Bool × List Bytes × Nat) :=
  match st.stack with
  | [] => .error .INVALID_STACK_OPERATION
  | top :: s => do
    let nKeysCount ← CScriptNum.read flags.fMinimalData 4 top
    require .PUBKEY_COUNT (0 ≤ nKeysCount ∧ nKeysCount ≤ MAX_PUBKEYS_PER_MULTISIG)
    let nKeys := nKeysCount.toNat
    require .OP_COUNT (st.nOpCount + nKeys ≤ MAX_OPS)
    let keys := s.take nKeys
    match s.drop nKeys with
    | [] => throw .INVALID_STACK_OPERATION
    | count :: s => do
      let nSigsCount ← CScriptNum.read flags.fMinimalData 4 count
      require .SIG_COUNT (0 ≤ nSigsCount ∧ nSigsCount ≤ nKeysCount)
      let nSigs := nSigsCount.toNat
      let sigs := s.take nSigs
      match s.drop nSigs with
      | [] => throw .INVALID_STACK_OPERATION
      | dummy :: s => do
        let scriptCode := sigs.foldl (fun code sig => code.findAndDelete (CScript.pushing sig)) st.codeHash
        let fSuccess ← checkSigs c flags scriptCode sigs keys
        require .SIG_NULLDUMMY (¬(flags.fNullDummy = true ∧ dummy ≠ []))
        return (fSuccess, s, nKeys)

/-- `OP_CHECKSIG` without pushing its result. -/
def checkSigOp : ScriptResult (Bool × List Bytes) :=
  match st.stack with
  | vchPubKey :: vchSig :: s => do
    let scriptCode := st.codeHash.findAndDelete (CScript.pushing vchSig)
    checkSignatureEncoding c.crypto flags vchSig
    checkPubKeyEncoding flags vchPubKey
    return (c.checkSig vchSig vchPubKey scriptCode, s)
  | _ => .error .INVALID_STACK_OPERATION

variable (script : CScript)

/-- The `switch` of `EvalScript`. `script` is the script that runs, `pc` what is left of it. -/
@[simp] def execOp (pc : CScript) (fExec : Bool) (st : ScriptState) (op : OpCode) : ScriptResult ScriptState :=
  let num := CScriptNum.read flags.fMinimalData 4
  match op with
  | .number n => .ok { st with stack := CScriptNum.serialize n :: st.stack }
  | .nop => .ok st
  | .upgradableNop => if flags.fDiscourageUpgradableNops then .error .DISCOURAGE_UPGRADABLE_NOPS else .ok st
  | .checkLockTimeVerify =>
    if !flags.fCheckLockTimeVerify then
      if flags.fDiscourageUpgradableNops then .error .DISCOURAGE_UPGRADABLE_NOPS else .ok st
    else match st.stack with
      | [] => .error .INVALID_STACK_OPERATION
      | top :: _ => do
        let nLockTime ← CScriptNum.read flags.fMinimalData 5 top
        require .NEGATIVE_LOCKTIME (0 ≤ nLockTime)
        require .UNSATISFIED_LOCKTIME (c.checkLockTime nLockTime = true)
        return st
  | .opIf | .opNotIf =>
    if fExec then
      match st.stack with
      | [] => .error .UNBALANCED_CONDITIONAL
      | top :: s => .ok { st with stack := s, vfExec := (castToBool top != decide (op = .opNotIf)) :: st.vfExec }
    else .ok { st with vfExec := false :: st.vfExec }
  | .opElse =>
    match st.vfExec with
    | [] => .error .UNBALANCED_CONDITIONAL
    | f :: fs => .ok { st with vfExec := (!f) :: fs }
  | .opEndIf =>
    match st.vfExec with
    | [] => .error .UNBALANCED_CONDITIONAL
    | _ :: fs => .ok { st with vfExec := fs }
  | .verify =>
    match st.stack with
    | [] => .error .INVALID_STACK_OPERATION
    | top :: s => if castToBool top then .ok { st with stack := s } else .error .VERIFY
  | .opReturn => .error .OP_RETURN
  | .toAltStack =>
    match st.stack with
    | [] => .error .INVALID_STACK_OPERATION
    | top :: s => .ok { st with stack := s, altstack := top :: st.altstack }
  | .fromAltStack =>
    match st.altstack with
    | [] => .error .INVALID_ALTSTACK_OPERATION
    | top :: s => .ok { st with stack := top :: st.stack, altstack := s }
  | .pick | .roll =>
    match st.stack with
    | top :: x :: s => do
      let n ← num top
      require .INVALID_STACK_OPERATION (0 ≤ n ∧ n < (x :: s).length)
      let vch := (x :: s).getD n.toNat []
      let s := if op = .roll then (x :: s).eraseIdx n.toNat else x :: s
      return { st with stack := vch :: s }
    | _ => .error .INVALID_STACK_OPERATION
  | .equalVerify =>
    match st.stack with
    | x2 :: x1 :: s => if x1 = x2 then .ok { st with stack := s } else .error .EQUALVERIFY
    | _ => .error .INVALID_STACK_OPERATION
  | .unary u =>
    match st.stack with
    | [] => .error .INVALID_STACK_OPERATION
    | top :: s => do
      let bn ← num top
      return { st with stack := CScriptNum.serialize (u.eval bn) :: s }
  | .binary b =>
    match st.stack with
    | x2 :: x1 :: s => do
      let bn1 ← num x1
      let bn2 ← num x2
      return { st with stack := CScriptNum.serialize (b.eval bn1 bn2) :: s }
    | _ => .error .INVALID_STACK_OPERATION
  | .numEqualVerify =>
    match st.stack with
    | x2 :: x1 :: s => do
      let bn1 ← num x1
      let bn2 ← num x2
      require .NUMEQUALVERIFY (bn1 = bn2)
      return { st with stack := s }
    | _ => .error .INVALID_STACK_OPERATION
  | .within =>
    match st.stack with
    | x3 :: x2 :: x1 :: s => do
      let bn1 ← num x1
      let bn2 ← num x2
      let bn3 ← num x3
      return { st with stack := ofBool (decide (bn2 ≤ bn1 ∧ bn1 < bn3)) :: s }
    | _ => .error .INVALID_STACK_OPERATION
  | .hash h =>
    match st.stack with
    | [] => .error .INVALID_STACK_OPERATION
    | top :: s => .ok { st with stack := h.eval c.crypto top :: s }
  | .codeSeparator => .ok { st with codeHash := pc }
  | .checkSig => do
    let r ← checkSigOp c flags st
    return { st with stack := ofBool r.1 :: r.2 }
  | .checkSigVerify => do
    let r ← checkSigOp c flags st
    require .CHECKSIGVERIFY (r.1 = true)
    return { st with stack := r.2 }
  | .checkMultiSig => do
    let r ← checkMultiSig c flags st
    return { st with stack := ofBool r.1 :: r.2.1, nOpCount := st.nOpCount + r.2.2 }
  | .checkMultiSigVerify => do
    let r ← checkMultiSig c flags st
    require .CHECKMULTISIGVERIFY (r.1 = true)
    return { st with stack := r.2.1, nOpCount := st.nOpCount + r.2.2 }
  | .checkColdStakeVerify fAllowLastOutputFree => do
    c.checkColdStake flags fAllowLastOutputFree script st.stack
    return st
  | .disabled | .invalid => .error .BAD_OPCODE
  | _ =>
    match stackEffect op st.stack with
    | none => .error .INVALID_STACK_OPERATION
    | some s => .ok { st with stack := s }

/-! ## Running a script -/

/-- Every enclosing conditional takes the branch that is being read. -/
def ScriptState.fExec : Bool := st.vfExec.all id

/-- The instruction is pushed, executed or skipped. -/
def perform (st : ScriptState) (opcode : UInt8) (vchPushValue : Bytes) (pc : CScript) : ScriptResult ScriptState :=
  if st.fExec ∧ opcode ≤ OP_PUSHDATA4 then
    if flags.fMinimalData && !checkMinimalPush vchPushValue opcode then .error .MINIMALDATA
    else .ok { st with stack := vchPushValue :: st.stack }
  else if st.fExec ∨ OP_IF ≤ opcode ∧ opcode ≤ OP_ENDIF then execOp c flags script pc st.fExec st (decodeOp opcode)
  else .ok st

/-- Only instructions above `OP_16` count. -/
def ScriptState.count (opcode : UInt8) : ScriptState :=
  if OP_16 < opcode then { st with nOpCount := st.nOpCount + 1 } else st

/-- One pass of the loop of `EvalScript`, after the instruction was read. -/
def step (st : ScriptState) (opcode : UInt8) (vchPushValue : Bytes) (pc : CScript) : ScriptResult ScriptState := do
  require .PUSH_SIZE (vchPushValue.length ≤ MAX_SCRIPT_ELEMENT_SIZE)
  require .OP_COUNT (¬(OP_16 < opcode ∧ MAX_OPS < (st.count opcode).nOpCount))
  require .DISABLED_OPCODE (decodeOp opcode ≠ .disabled)
  let st ← perform c flags script (st.count opcode) opcode vchPushValue pc
  require .STACK_SIZE (st.stack.length + st.altstack.length ≤ MAX_STACK_SIZE)
  return st

/-- The loop of `EvalScript`; `fuel` bounds the number of instructions. -/
def evalLoop : Nat → ScriptState → CScript → ScriptResult ScriptState
  | _, st, [] => .ok st
  | 0, _, _ :: _ => .error .UNKNOWN_ERROR
  | fuel + 1, st, b :: pc =>
    match CScript.getOp (b :: pc) with
    | none => .error .BAD_OPCODE
    | some (opcode, vchPushValue, next) => do
      let st ← step c flags script st opcode vchPushValue next
      evalLoop fuel st next

def evalScript (stack : List Bytes) (script : CScript) : ScriptResult (List Bytes) := do
  require .SCRIPT_SIZE (script.length ≤ MAX_SCRIPT_SIZE)
  let st ← evalLoop c flags script script.length { stack, codeHash := script } script
  require .UNBALANCED_CONDITIONAL (st.vfExec = [])
  return st.stack

def requireTrue (stack : List Bytes) : ScriptResult Unit :=
  require .EVAL_FALSE (stack.head?.any castToBool = true)

def verifyScript (scriptSig scriptPubKey : CScript) : ScriptResult Unit := do
  require .SIG_PUSHONLY (¬(flags.fSigPushOnly = true ∧ CScript.isPushOnly scriptSig = false))
  let stackCopy ← evalScript c flags [] scriptSig
  let stack ← evalScript c flags stackCopy scriptPubKey
  requireTrue stack
  if flags.fP2SH && CScript.isPayToScriptHash scriptPubKey then
    require .SIG_PUSHONLY (CScript.isPushOnly scriptSig = true)
    match stackCopy with
    | [] => throw .UNKNOWN_ERROR
    | pubKeySerialized :: s => do
      let stack ← evalScript c flags s pubKeySerialized
      requireTrue stack

end TrumpCoin
