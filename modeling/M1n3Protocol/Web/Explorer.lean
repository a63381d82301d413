/-
The web app's template page: `bitcoin-utils.ts`, the two decoders of
`nbits`, and what `sui-queries.ts` reads from the indexer for them.

# Where a template comes from

The indexer answers with the fields of the on-chain object: a `u64` as a
string of digits, a smaller number as a number, bytes in base64. The page
goes by hex from there on.

# Numbers

A byte that is no hex is not a number, `none` here. The heights and values
that occur are far below 2^53, where every integer is a number.

# What is left to a library

`bitcoinjs-lib` reads transactions and writes addresses (`BitcoinJs`).

# What is left out

The floating-point difficulty beside a target, colours, dates and the
texts around the values.
-/
import M1n3Protocol.Contract.Pool
import M1n3Protocol.Keeper.Keeper
import M1n3Protocol.Lib.Base64
import M1n3Protocol.Lib.BitcoinFormat
import M1n3Protocol.Lib.Js
import M1n3Protocol.Stratum.Template

namespace M1n3Protocol

/-- What `try_register_template` puts on chain of a job. -/
def MiningJob.templateArgs (job : MiningJob) : TemplateArgs where
  height := job.height
  prevBlockHash := job.prevBlockHash
  coinbase1 := job.coinbase1
  coinbase2 := job.coinbase2
  merkleBranches := job.merkleBranches
  version := job.version
  nbits := job.nbits
  ntime := job.ntime

namespace Web.Explorer

open Js BitcoinTx
open Keeper (Json)

-- ===================================================================== hex

/-- Pair by pair; a last single character by itself. -/
def hexToBytes : Text → List (Option Int)
  | [] => []
  | [c] => [parseInt16 [c]]
  | c :: d :: rest => parseInt16 [c, d] :: hexToBytes rest

def isLineEnd (c : Char) : Bool :=
  [0x0a, 0x0d, 0x2028, 0x2029].contains c.toNat

/-- `hex.match(/.{2}/g)` -/
def pairs : Text → List Text
  | c :: d :: rest =>
      if isLineEnd c || isLineEnd d then pairs (d :: rest)
      else [c, d] :: pairs rest
  | _ => []

def reverseHex (hex : Text) : Text :=
  let bytes := pairs hex
  if bytes = [] then hex else bytes.reverse.flatten

-- ============================================================= the indexer

/-- The `atob` branch; both decode what is base64. -/
def b64hex : Json → Text
  | .string val => ((Base64.decode val).map Hex.encode).getD []
  | _ => []

def b64hexArray : Json → List Text
  | .array vals => (vals.map b64hex).filter fun s => 0 < s.length
  | _ => []

/-- `parseInt(s, 10)` -/
def parseInt10 (s : Text) : Option Int :=
  let (negative, s) := stripSign (s.dropWhile isSpace)
  let ds := s.takeWhile Char.isDigit
  if ds = [] then none
  else
    let n : Int := Nat.ofDigitChars 10 ds 0
    some (if negative then -n else n)

def parseU64 : Json → Int
  | .string val => (parseInt10 val).getD 0
  | .number val => val.toNat
  | _ => 0

structure TemplateData where
  id : Text
  height : Int
  prevBlockHash : Text
  coinbase1 : Text
  coinbase2 : Text
  merkleBranches : List Text
  version : Int
  nbits : Int
  ntime : Int
  isActive : Bool
  owner : Text
  createdAtMs : Int
  shareCount : Int

/-- A field that is missing is `other`. -/
def parseTemplateJson (json : String → Json) (id : Text) : TemplateData where
  id := id
  height := parseU64 (json "height")
  prevBlockHash := b64hex (json "prev_block_hash")
  coinbase1 := b64hex (json "coinbase1")
  coinbase2 := b64hex (json "coinbase2")
  merkleBranches := (b64hexArray (json "merkle_branches")).map reverseHex
  version := parseU64 (json "version")
  nbits := parseU64 (json "nbits")
  ntime := parseU64 (json "ntime")
  isActive := false
  owner := (json "owner").asStr.getD []
  createdAtMs := parseU64 (json "created_at_ms")
  shareCount := 0

-- ============================================================ the coinbase

/-- What of the script is no height push, at most 80 characters. -/
def decodeCoinbaseAscii (coinbase1Hex : Text) : Text :=
  if coinbase1Hex.length < 84 then []
  else
    let bytes := hexToBytes coinbase1Hex
    if bytes.length < 42 then []
    else
      match bytes.getD 41 none with
      | none => []
      | some scriptLen =>
          if scriptLen = 0 then []
          else
            let scriptEnd := min (42 + scriptLen) bytes.length
            match bytes[42]? with
            | none => []
            | some heightPushLen =>
                -- An end that is not a number is no end, and slices from 0.
                let asciiStart := heightPushLen.map fun n => 43 + n
                if asciiStart.any fun n => scriptEnd ≤ n then []
                else
                  let asciiBytes := (bytes.take scriptEnd.toNat).drop
                    (asciiStart.getD 0).toNat
                  (asciiBytes.map fun b =>
                    if b.any fun b => 0x20 ≤ b && b ≤ 0x7e then
                      Char.ofNat (b.getD 0).toNat
                    else '.').take 80

def computeFirstTransaction (merkleBranches : List Text) : Text :=
  match merkleBranches.head? with
  | none => "empty block".toList
  | some branch0 =>
      if branch0.length < 64 then "invalid".toList else branch0

/-- `height |= b << (8 * i)`, byte by byte from the `i`-th. -/
def heightOr (height : BitVec 32) : Nat → List (Option Int) → BitVec 32
  | _, [] => height
  | i, b :: bytes =>
      heightOr (height ||| toInt32 (b.getD 0) <<< (8 * i)) (i + 1) bytes

def parseCoinbaseHeight (coinbase1Hex : Text) : Option Int :=
  if coinbase1Hex.length < 88 then none
  else
    let bytes := hexToBytes coinbase1Hex
    if bytes.length < 44 then none
    else
      match bytes.getD 42 none with
      | none => none
      | some heightPushLen =>
          if heightPushLen = 0 ∨ 4 < heightPushLen then none
          else some (heightOr 0 0
            ((bytes.drop 43).take heightPushLen.toNat)).toInt

/-- How many bytes the declared script length leaves open. -/
def inferExtranonceGap (coinbase1Hex : Text) : Option Nat :=
  if coinbase1Hex = [] then none
  else
    let bytes := hexToBytes coinbase1Hex
    if bytes.length < 42 then none
    else
      match bytes.getD 41 none with
      | none => none
      | some declared =>
          let gap : Int := declared - (bytes.length - 42 : Nat)
          if 0 ≤ gap then some gap.toNat else none

/-- `"00".repeat(len)` -/
def zeros (len : Nat) : Text := List.replicate (2 * len) '0'

def reconstructCoinbaseHex (coinbase1 coinbase2 : Text)
    (fallbackLen : Nat) : Text :=
  let len := (inferExtranonceGap coinbase1).getD fallbackLen
  coinbase1 ++ zeros len ++ coinbase2

-- =========================================================== its outputs

inductive AddressType
  | p2pkh | p2sh | p2wpkh | p2wsh | p2tr
deriving DecidableEq

inductive ParsedOutput
  | address (addressType : AddressType) (address : Text) (valueSats : Nat)
      (hex : Text)
  | nulldata (valueSats : Nat) (dataHex hex : Text)
      (decoded : Option (Text × Option Text))
  | unknown (valueSats : Nat) (hex : Text)
deriving DecidableEq

structure ParsedCoinbase where
  txVersion : Nat
  inputSequence : Option Nat
  locktime : Nat
  witnessCommitmentNonce : Option Text
  outputs : List ParsedOutput
  totalOutputSats : Nat
deriving DecidableEq

/-- What `bitcoinjs-lib` is used for; `none` where it throws. -/
structure BitcoinJs where
  fromHex : Text → Option WireTx
  toBech32 : Bytes → Nat → Option Text
  fromOutputScript : Bytes → Option Text

def scriptType (script : Bytes) : Option AddressType :=
  let at_ (i : Nat) : BitVec 8 := script.getD i 0
  if script.length = 25 ∧ at_ 0 = 0x76 ∧ at_ 1 = 0xa9 ∧ at_ 2 = 0x14
      ∧ at_ 23 = 0x88 ∧ at_ 24 = 0xac then some .p2pkh
  else if script.length = 23 ∧ at_ 0 = 0xa9 ∧ at_ 1 = 0x14
      ∧ at_ 22 = 0x87 then some .p2sh
  else if script.length = 22 ∧ at_ 0 = 0x00 ∧ at_ 1 = 0x14 then
    some .p2wpkh
  else if script.length = 34 ∧ at_ 0 = 0x00 ∧ at_ 1 = 0x20 then some .p2wsh
  else if script.length = 34 ∧ at_ 0 = 0x51 ∧ at_ 1 = 0x20 then some .p2tr
  else none

def detectAddress (js : BitcoinJs) (script : Bytes) :
    Option (AddressType × Text) := do
  let type ← scriptType script
  let address ← match type with
    | .p2wpkh | .p2wsh => js.toBech32 (script.drop 2) 0
    | .p2tr => js.toBech32 (script.drop 2) 1
    | .p2pkh | .p2sh => js.fromOutputScript script
  return (type, address)

/-- The payload behind the opcode, by its push. -/
def opReturnData : Bytes → Bytes
  | [] => []
  | op :: rest =>
      if 1 ≤ op ∧ op ≤ 75 then rest.take op.toNat
      else if op = 0x4c ∧ 1 ≤ rest.length then
        (rest.drop 1).take (rest.getD 0 0).toNat
      else if op = 0x4d ∧ 2 ≤ rest.length then
        (rest.drop 2).take
          ((rest.getD 0 0).toNat + 256 * (rest.getD 1 0).toNat)
      else op :: rest

/-- The texts a payload may begin with. -/
def protocols : List (String × String) :=
  [("RSKBLOCK:", "Rootstock"), ("HATHOR", "Hathor"), ("SYS_BLOCK", "Syscoin"),
    ("EXSAT", "exSat")]

/-- The bytes of a text in ASCII. -/
def ascii (s : String) : Bytes := s.toList.map fun c => BitVec.ofNat 8 c.toNat

def decodeOpReturn (data : Bytes) : Option (Text × Option Text) :=
  let dataHex := Hex.encode data
  if dataHex = [] then none
  else if "aa21a9ed".toList <+: dataHex ∧ dataHex.length = 8 + 64 then
    some ("Segwit Commitment".toList, some (dataHex.drop 8))
  else
    match protocols.find? fun p => ascii p.1 <+: data with
    | some p => some (p.2.toList, none)
    | none =>
        if "434f5245".toList <+: dataHex then some ("CoreDAO".toList, none)
        else some ("Unknown".toList, none)

def parseOutput (js : BitcoinJs) (o : TxOut) : ParsedOutput :=
  let scriptHex := Hex.encode o.scriptPubKey
  match o.scriptPubKey with
  | 0x6a :: rest =>
      let data := opReturnData rest
      .nulldata o.value (Hex.encode data) scriptHex (decodeOpReturn data)
  | _ =>
      match detectAddress js o.scriptPubKey with
      | some (type, address) => .address type address o.value scriptHex
      | none => .unknown o.value scriptHex

/-- The first item of the first input's witness, of 32 bytes. -/
def witnessNonce (w : WireTx) : Option Text := do
  let witness ← w.witness
  let first ← witness.head?
  let item ← first.head?
  if item.length = 32 then some (Hex.encode item) else none

def parseCoinbase (js : BitcoinJs) (cbHex : Text) : Option ParsedCoinbase := do
  let w ← js.fromHex cbHex
  let outputs := w.tx.outputs.map (parseOutput js)
  return {
    txVersion := w.tx.version
    inputSequence := w.tx.inputs.head?.map TxIn.sequence
    locktime := w.tx.lockTime
    witnessCommitmentNonce := witnessNonce w
    outputs := outputs
    totalOutputSats := (w.tx.outputs.map TxOut.value).sum }

-- ================================================================= targets

def padStart (width : Nat) (s : Text) : Text :=
  List.replicate (width - s.length) '0' ++ s

/-- Of the decoded target, its text. -/
def decodeNbits (nbits : Int) : Text :=
  let exp := bitAnd (shiftRightZero nbits 24) 0xff
  let mant := bitAnd nbits 0xffffff
  let shift := exp - 3
  let hex := padStart 6 (Nat.toDigits 16 mant.toNat)
  let hex := if 0 < shift then hex ++ zeros shift.toNat else hex
  if 64 < hex.length then hex.drop (hex.length - 64) else padStart 64 hex

/-- A store behind its bound check. -/
def store (target : Bytes) (i : Int) (x : Int) : Bytes :=
  if 0 ≤ i ∧ i < 32 then target.set i.toNat (uint8 x) else target

def nbitsToTarget (nbits : Int) : Text :=
  let exponent := bitAnd (shiftRightZero nbits 24) 0xff
  let mantissa := bitAnd nbits 0x00ffffff
  if mantissa = 0 ∨ exponent = 0 then List.replicate 64 '0'
  else
    let target : Bytes := List.replicate 32 0
    let offset := 32 - exponent
    let target := store target offset (bitAnd (shiftRight mantissa 16) 0xff)
    let target :=
      store target (offset + 1) (bitAnd (shiftRight mantissa 8) 0xff)
    let target := store target (offset + 2) (bitAnd mantissa 0xff)
    Hex.encode target

-- ================================================================ the card

/-- What `TemplateCard` shows. -/
structure Card where
  prevHashDisplay : Text
  firstTx : Text
  isEmptyBlock : Bool
  coinbaseAscii : Text
  bip34Height : Option Int
  heightsAgree : Bool
  targetHex : Text
  parsedCb : Option ParsedCoinbase
deriving DecidableEq

def templateCard (js : BitcoinJs) (t : TemplateData) : Card :=
  let firstTx := computeFirstTransaction t.merkleBranches
  let bip34Height := parseCoinbaseHeight t.coinbase1
  { prevHashDisplay := if t.prevBlockHash = [] then []
      else reverseHex t.prevBlockHash
    firstTx := firstTx
    isEmptyBlock := firstTx = "empty block".toList
    coinbaseAscii := decodeCoinbaseAscii t.coinbase1
    bip34Height := bip34Height
    heightsAgree := bip34Height = some t.height
    targetHex := decodeNbits t.nbits
    parsedCb :=
      if t.coinbase1 = [] ∨ t.coinbase2 = [] then none
      else parseCoinbase js
        (reconstructCoinbaseHex t.coinbase1 t.coinbase2 8) }

end Web.Explorer

end M1n3Protocol
