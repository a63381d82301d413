/-
The trustless keeper: four loops that each read a page of events and send
the transaction that follows from every event in it.

# A tick

A tick is what happens between two sleeps of one loop. Each loop has its
own set of ids, and nothing else is shared, so ticks of different loops
do not see each other. What the node and the command line answer in a tick
comes with it.

# Marking

Three of the loops put an id into their set before they act on its event.
`tickAutoBind` puts the round in after the transaction, so a failure
leaves it for the next tick.
-/
import M1n3Protocol.Contract.Base
import M1n3Protocol.Lib.Hex
import M1n3Protocol.Lib.Machine
import M1n3Protocol.Lib.Sweep

namespace M1n3Protocol.Keeper

open Sweep

-- ============================================================= what is read

/-- A JSON value, as far as the keeper looks at one. -/
inductive Json
  | string (s : Text)
  | number (n : U64)
  | array (xs : List Json)
  | other

def Json.asStr : Json → Option Text
  | .string s => some s
  | _ => none

def Json.asU64 : Json → Option U64
  | .number n => some n
  | _ => none

/-- The decimal digits of a number. -/
def decimalDigits : Nat → Text → Option Nat
  | n, [] => some n
  | n, c :: cs =>
      if '0' ≤ c ∧ c ≤ '9' then
        decimalDigits (10 * n + (c.toNat - '0'.toNat)) cs
      else none

/-- `parse::<u64>`. -/
def parseU64 (cs : Text) : Option U64 :=
  let ds := match cs with
    | '+' :: ds => ds
    | _ => cs
  if ds = [] then none
  else ((decimalDigits 0 ds).filter fun n => n < 2 ^ 64).map (BitVec.ofNat 64)

theorem decimalDigits_append (n : Nat) (cs ds : Text) :
    decimalDigits n (cs ++ ds)
      = (decimalDigits n cs).bind fun m => decimalDigits m ds := by
  induction cs generalizing n with
  | nil => rfl
  | cons c cs ih =>
      rw [List.cons_append, decimalDigits, decimalDigits]
      split
      case isTrue => exact ih _
      case isFalse => rfl

theorem decimalDigits_digitChar {d : Nat} (hd : d < 10) (n : Nat) :
    decimalDigits n [d.digitChar] = some (10 * n + d) := by
  have hchar : ∀ d < 10, ('0' ≤ d.digitChar ∧ d.digitChar ≤ '9')
      ∧ d.digitChar.toNat - '0'.toNat = d := by
    decide
  obtain ⟨hdigit, hvalue⟩ := hchar d hd
  rw [decimalDigits, if_pos hdigit, hvalue]
  rfl

theorem decimalDigits_toDigits (n : Nat) :
    decimalDigits 0 (Nat.toDigits 10 n) = some n := by
  induction n using Nat.strongRecOn with
  | ind n ih =>
      rw [Nat.toDigits_eq_if (by decide)]
      split
      case isTrue hlt =>
          rw [decimalDigits_digitChar hlt, Nat.mul_zero, Nat.zero_add]
      case isFalse hge =>
          rw [decimalDigits_append,
            ih (n / 10) (Nat.div_lt_self (by omega) (by decide)),
            Option.bind_some, decimalDigits_digitChar (by omega),
            Nat.div_add_mod]

/-- A number is read back. -/
theorem parseU64_toDigits (n : U64) :
    parseU64 (Nat.toDigits 10 n.toNat) = some n := by
  have hdigits := decimalDigits_toDigits n.toNat
  have hne : Nat.toDigits 10 n.toNat ≠ [] := Nat.toDigits_ne_nil
  generalize Nat.toDigits 10 n.toNat = cs at hdigits hne
  have hplus : ∀ ds, cs ≠ '+' :: ds := by
    rintro ds rfl
    cases hdigits
  have hfit : n.toNat < 2 ^ 64 := n.isLt
  cases cs with
  | nil => exact absurd rfl hne
  | cons c cs => simpa [parseU64, hdigits] using hfit

structure SuiEvent where
  parsed : Text → Option Json
  txDigest : Text

def SuiEvent.text (e : SuiEvent) (field : String) : Option Text :=
  (e.parsed field.toList).bind Json.asStr

def SuiEvent.u64 (e : SuiEvent) (field : String) : Option U64 :=
  (e.text field).bind parseU64

inductive ObjectChange
  | created (objectId objectType : Text)
  | other

/-- What is handed to `sui client ptb`. -/
structure MoveCall where
  target : Text
  typeArguments : List Text
  arguments : List Text
  gasBudget : U64

/-- What node and command line answer while one event is handled; `none` is
an error. -/
structure Answers where
  roundClosed : Option (List SuiEvent)
  transactionBlock : Text → Option (List ObjectChange)
  runShell : MoveCall → Bool

structure Args where
  packageId : Text
  poolId : Text
  registryId : Text
  vaultId : Text
  hbtcCoinType : Text
  hashShareRegistryId : Option Text
  gasBudget : U64
  dryRun : Bool
  deepbookPackageId : Option Text
  deepbookRegistryId : Option Text
  deepbookQuoteCoinType : Option Text
  deepbookDeepCoinId : Option Text
  deepbookTickSize : U64
  deepbookLotSize : U64
  deepbookMinSize : U64

structure KeeperState where
  seenClaims : List Text
  seenRoundFunds : List U64
  seenSlotPools : List Text
  seenBoundRounds : List U64

-- ============================================================= transactions

/-- An object or package id as an argument. -/
def objectArg (id : Text) : Text := '@' :: id

def u64Arg (n : U64) : Text := Nat.toDigits 10 n.toNat ++ "u64".toList

/-- Sent unless the run is dry; then it is only printed. -/
def send (args : Args) (answers : Answers) (call : MoveCall) : Outcome :=
  if args.dryRun then .dropped
  else if answers.runShell call then .done
  else .dropped

def openAccumulatorCall (args : Args) (claimId : Text) : MoveCall where
  target := args.packageId
    ++ "::pool::open_round_accumulator_from_claim".toList
  typeArguments := []
  arguments := [objectArg args.poolId, objectArg claimId,
    objectArg "0x6".toList]
  gasBudget := args.gasBudget

def openAccumulator (args : Args) (answers : Answers) (claimId : Text) :
    Outcome :=
  send args answers (openAccumulatorCall args claimId)

def fundRoundCall (args : Args) (roundHistory depositRecord : Text) :
    MoveCall where
  target := args.packageId
    ++ "::hashi_rewards::open_and_fund_round_batch".toList
  typeArguments := [args.hbtcCoinType]
  arguments := [objectArg args.registryId, objectArg args.vaultId,
    objectArg roundHistory, objectArg depositRecord, objectArg "0x6".toList]
  gasBudget := args.gasBudget

def fundRound (args : Args) (answers : Answers)
    (roundHistory depositRecord : Text) : Outcome :=
  send args answers (fundRoundCall args roundHistory depositRecord)

/-- It needs all four DeepBook flags. -/
def createDeepbookPoolCall (args : Args) (hsType : Text) :
    Option MoveCall := do
  let pkg ← args.deepbookPackageId
  let reg ← args.deepbookRegistryId
  let quote ← args.deepbookQuoteCoinType
  let deep ← args.deepbookDeepCoinId
  return {
    target := pkg ++ "::pool::create_permissionless_pool".toList
    typeArguments := [hsType, quote]
    arguments := [objectArg reg, u64Arg args.deepbookTickSize,
      u64Arg args.deepbookLotSize, u64Arg args.deepbookMinSize,
      objectArg deep]
    gasBudget := args.gasBudget }

def createDeepbookPool (args : Args) (answers : Answers) (hsType : Text) :
    Outcome :=
  match createDeepbookPoolCall args hsType with
  | none => .dropped
  | some call => send args answers call

-- ================================================================ lookups

/-- The first history created by a transaction that closed the round. An
error at any of them is the answer. -/
def findRoundHistory (answers : Answers) (roundId : U64) :
    Except Unit (Option Text) :=
  match answers.roundClosed with
  | none => .error ()
  | some page => go page
where
  go : List SuiEvent → Except Unit (Option Text)
  | [] => .ok none
  | e :: page =>
      if e.u64 "round_id" = some roundId then
        match answers.transactionBlock e.txDigest with
        | none => .error ()
        | some changes =>
            match changes.findSome? history with
            | some id => .ok (some id)
            | none => go page
      else go page
  history : ObjectChange → Option Text
  | .created objectId objectType =>
      if "::pool::RoundHistory".toList <:+: objectType then some objectId
      else none
  | .other => none

/-- `vector<u8>` as an array of numbers, or as text. -/
def parseByteArray : Json → Option Text
  | .array xs => (xs.mapM Json.asU64).bind fun ns =>
      (String.fromUTF8? ⟨(ns.map fun n =>
        (UInt8.ofBitVec (n.setWidth 8))).toArray⟩).map String.toList
  | .string s => some s
  | _ => none

/-- The coin type of a slot, from a label such as `HS000`. -/
def labelToHashshareType (packageId label : Text) : Option Text :=
  match label with
  | 'H' :: 'S' :: num =>
      if num ≠ [] ∧ num.all Char.isDigit then
        some (packageId ++ "::hs_".toList ++ num ++ "::HS_".toList ++ num)
      else none
  | _ => none

-- =============================================================== the ticks

/-- A page of events, each with what is answered while it is handled. -/
abbrev Page := List (SuiEvent × Answers)

def claimKey (item : SuiEvent × Answers) : Option Text :=
  item.1.text "claim_id"

def claimAct (args : Args) (item : SuiEvent × Answers) (claimId : Text) :
    Outcome :=
  openAccumulator args item.2 claimId

def tickBlockFound (args : Args) (k : KeeperState) (page : Page) :
    KeeperState :=
  { k with
    seenClaims := (pass claimKey (claimAct args) page k.seenClaims).seen }

def depositKey (item : SuiEvent × Answers) : Option U64 :=
  item.1.u64 "round_id"

/-- An error of the lookup ends the tick. -/
def depositAct (args : Args) (item : SuiEvent × Answers) (roundId : U64) :
    Outcome :=
  match findRoundHistory item.2 roundId with
  | .error () => .stopped
  | .ok none => .dropped
  | .ok (some history) =>
      match item.1.text "record_id" with
      | none => .dropped
      | some depositRecord => fundRound args item.2 history depositRecord

def tickDepositConfirmed (args : Args) (k : KeeperState) (page : Page) :
    KeeperState :=
  { k with
    seenRoundFunds :=
      (pass depositKey (depositAct args) page k.seenRoundFunds).seen }

def slotKey (item : SuiEvent × Answers) : Option Text :=
  item.1.text "cap_id"

def slotAct (args : Args) (item : SuiEvent × Answers) (_capId : Text) :
    Outcome :=
  match (item.1.parsed "label".toList).bind parseByteArray with
  | none => .dropped
  | some label =>
      match labelToHashshareType args.packageId label with
      | none => .dropped
      | some hsType => createDeepbookPool args item.2 hsType

def tickSlotBound (args : Args) (k : KeeperState) (page : Page) :
    KeeperState :=
  { k with
    seenSlotPools := (pass slotKey (slotAct args) page k.seenSlotPools).seen }

/-- The round of the pool object's field. -/
def readCurrentRound (field : Json) : Option U64 :=
  (field.asStr.bind parseU64).or field.asU64

def hasRoundBinding (page : List SuiEvent) (roundId : U64) : Bool :=
  page.any fun e => e.u64 "round_id" = some roundId

/-- Whether the command came back without an error; a dry run does. -/
def bindSlot (args : Args) (runShell : MoveCall → Bool) (registryId : Text)
    (roundId : U64) : Bool :=
  args.dryRun || runShell {
    target := args.packageId
      ++ "::hash_share_registry::bind_slot_to_round".toList
    typeArguments := []
    arguments := [objectArg registryId, u64Arg roundId]
    gasBudget := args.gasBudget }

/-- A field or page that is `none` is an error of the node. -/
def tickAutoBind (args : Args) (k : KeeperState) (field : Option Json)
    (bindings : Option (List SuiEvent)) (runShell : MoveCall → Bool) :
    KeeperState :=
  match args.hashShareRegistryId, field.bind readCurrentRound with
  | some registryId, some currentRound =>
      if currentRound ∈ k.seenBoundRounds then k
      else match bindings with
        | none => k
        | some page =>
            if hasRoundBinding page currentRound
                || bindSlot args runShell registryId currentRound then
              { k with seenBoundRounds := currentRound :: k.seenBoundRounds }
            else k
  | _, _ => k

-- ============================================================= the machine

/-- A tick; a page that could not be read is `none`. -/
inductive Tick
  | blockFound (page : Option Page)
  | depositConfirmed (page : Option Page)
  | slotBound (page : Option Page)
  | autoBind (field : Option Json) (bindings : Option (List SuiEvent))
      (runShell : MoveCall → Bool)

def tick (args : Args) (k : KeeperState) : Tick → KeeperState
  | .blockFound page => tickBlockFound args k (page.getD [])
  | .depositConfirmed page => tickDepositConfirmed args k (page.getD [])
  | .slotBound page => tickSlotBound args k (page.getD [])
  | .autoBind field bindings runShell =>
      tickAutoBind args k field bindings runShell

/-- The keeper from `Keeper::new` on. -/
def keeper (args : Args) : Machine Unit KeeperState Tick where
  init := ⟨[], [], [], []⟩
  step k t := .ok (tick args k t)

end M1n3Protocol.Keeper
