/-
The miner's Sui client: the bootstrap cache it keeps of its round, and the
transactions it sends to have a round counted, to close the stats of an
old one and to open those of a new one.

# What a transaction comes to

`exec` answers with an error, or with a response. A response says that the
transaction was executed, not that it did anything: Sui executes an abort
too, and reports it in the status. An error says nothing about whether the
transaction has taken effect. So there are four cases, `Sent`, and of the
two with a response only one has changed the chain.

# The chain

The client runs on the whole contract. Whatever else happens there, its
own share batches included, is a `call`. What the node answers is an
input, and what it says of an object is true of it.

# What the client forgets

Which stats objects its transactions had counted, and which they closed,
is kept in `counted` and `closed`. They are written here and read by no
source function.
-/
import M1n3Protocol.Chain.World

namespace M1n3Protocol.Client

open Checked

/-- The part of the cache the rounds go through. -/
structure Cache where
  currentRound : U64
  minerRoundStatsId : Option ID
  accumulatedRounds : List U64

def Cache.new : Cache := ⟨0, none, []⟩

structure State where
  world : World
  cache : Cache
  stateFile : Option Cache
  counted : List (ID × U64)
  closed : List ID

/-- Best-effort: whether the write succeeds is up to the disk. -/
def State.saveState (s : State) (written : Bool) : State :=
  if written then { s with stateFile := some s.cache } else s

-- =========================================================== transactions

/-- What becomes of a transaction. -/
inductive Sent
  | error
  | lost (epoch timestampMs : U64)
  | failed
  | committed (epoch timestampMs : U64)
deriving DecidableEq

/-- `exec` returns a response. -/
def Sent.answered : Sent → Bool
  | .error | .lost _ _ => false
  | .failed | .committed _ _ => true

/-- When it takes effect, if it does. -/
def Sent.effect : Sent → Option (U64 × U64)
  | .error | .failed => none
  | .lost epoch timestampMs | .committed epoch timestampMs =>
      some (epoch, timestampMs)

/-- The chain after it. -/
def execute (H : HashFn) (miner : Address) (w : World) (c : MiningCall)
    (sent : Sent) : Except Abort World :=
  match sent.effect with
  | none => .ok w
  | some (epoch, timestampMs) => do
      let w ← w.exec H (.beginTx miner epoch timestampMs)
      w.exec H (.mining c)

/-- The object, with its round, if an accumulator of that round is to
count it. -/
def countedBy (w : World) (accId mrsId : ID) : List (ID × U64) :=
  match w.mining.accumulators.get accId, w.mining.roundStats.get mrsId with
  | some acc, some mrs =>
      if mrs.roundId = acc.roundId then [(mrsId, mrs.roundId)] else []
  | _, _ => []

def State.doAccumulate (H : HashFn) (miner : Address) (s : State)
    (accId mrsId : ID) (sent : Sent) : Except Abort State := do
  let world ← execute H miner s.world (.accumulateMinerStats accId [mrsId])
    sent
  return { s with
    world
    counted := if sent.effect.isSome then
        countedBy s.world accId mrsId ++ s.counted
      else s.counted }

def State.closeMrs (H : HashFn) (miner : Address) (s : State) (mrsId : ID)
    (sent : Sent) : Except Abort State := do
  let world ← execute H miner s.world (.closeMinerRoundStats mrsId) sent
  return { s with
    world
    closed := if sent.effect.isSome then mrsId :: s.closed else s.closed }

-- ====================================================== poll_and_accumulate

/-- What the node says of an accumulator of a round is true. -/
def accumulatorOf (w : World) (round : U64) (accId : ID) : Bool :=
  (w.mining.accumulators.get accId).all fun acc => acc.roundId = round

/-- `due` is the half minute since the last check, `found` the answer of
`find_accumulator_for_round`; an error is `none`. -/
def State.pollAndAccumulate (H : HashFn) (miner : Address) (s : State)
    (due : Bool) (found : Option (Option ID)) (sent : Sent)
    (written : Bool) : Except Abort State :=
  let round := s.cache.currentRound
  if !due then .ok s
  else if round ∈ s.cache.accumulatedRounds then .ok s
  else match s.cache.minerRoundStatsId, found with
    | some mrsId, some (some accId) => do
        require (accumulatorOf s.world round accId = true) .noSuchObject
        let s' ← s.doAccumulate H miner accId mrsId sent
        return if sent.answered then
            { s' with cache.accumulatedRounds :=
                round :: s'.cache.accumulatedRounds }.saveState written
          else s'
    | _, _ => .ok s

-- ======================================================= ensure_round_stats

/-- What the node says of a stats object of a round is true: it is there,
or has been. -/
def statsOf (miner : Address) (w : World) (round : U64) (mrsId : ID) : Bool :=
  mrsId < w.mining.roundStats.next
    && (w.mining.roundStats.get mrsId).all fun mrs =>
      mrs.key = ⟨miner, round⟩

/-- The stats of the round are these. -/
def State.setRound (s : State) (round : U64) (mrsId : ID) (written : Bool) :
    State :=
  State.saveState { s with
    cache.currentRound := round
    cache.minerRoundStatsId := some mrsId } written

/-- An answer of `find_owned_for_round`; an error is `none`. -/
abbrev Found := Option (Option ID)

def foundHonest (miner : Address) (w : World) (round : U64) (found : Found) :
    Bool :=
  match found with
  | some (some mrsId) => statsOf miner w round mrsId
  | _ => true

/-- The old stats are closed if the round is known as accumulated, and
forgotten if that is answered. -/
def State.closeOld (H : HashFn) (miner : Address) (s : State) (round : U64)
    (sent : Sent) : Except Abort State :=
  match s.cache.minerRoundStatsId with
  | some oldMrsId =>
      if s.cache.currentRound ≠ round
          ∧ s.cache.currentRound ∈ s.cache.accumulatedRounds then do
        let s' ← s.closeMrs H miner oldMrsId sent
        return if sent.answered then
            { s' with cache.minerRoundStatsId := none }
          else s'
      else .ok s
  | none => .ok s

/-- The id is read off the response, where the object is among the
changes, or asked for. -/
def State.createRoundStats (H : HashFn) (miner : Address) (s : State)
    (round poolHeight : U64) (sent : Sent) (found : Found) (written : Bool) :
    Except Abort State := do
  let world ← execute H miner s.world (.createRoundStats round poolHeight) sent
  let s' := { s with world }
  match sent with
  | .error | .lost _ _ => return s'
  | .committed _ _ =>
      return s'.setRound round s.world.mining.roundStats.next written
  | .failed => do
      require (foundHonest miner world round found = true) .noSuchObject
      match found with
      | some (some mrsId) => return s'.setRound round mrsId written
      | _ => return s'

def State.ensureRoundStats (H : HashFn) (miner : Address) (s : State)
    (round poolHeight : U64) (close : Sent) (found : Found) (create : Sent)
    (found' : Found) (written : Bool) : Except Abort State :=
  if s.cache.currentRound = round ∧ s.cache.minerRoundStatsId.isSome then
    .ok s
  else do
    let s ← s.closeOld H miner round close
    require (foundHonest miner s.world round found = true) .noSuchObject
    match found with
    | none => return s
    | some (some mrsId) => return s.setRound round mrsId written
    | some none =>
        s.createRoundStats H miner round poolHeight create found' written

-- ============================================================= the machine

/-- `load_state`, on a client just made. -/
def State.restart (s : State) : State :=
  { s with cache := s.stateFile.getD .new }

inductive Event
  | call (c : Call)
  | pollAndAccumulate (due : Bool) (found : Option (Option ID)) (sent : Sent)
      (written : Bool)
  | ensureRoundStats (round poolHeight : U64) (close : Sent) (found : Found)
      (create : Sent) (found' : Found) (written : Bool)
  | restart

def State.step (H : HashFn) (miner : Address) (s : State) :
    Event → Except Abort State
  | .call c => do
      let world ← s.world.exec H c
      return { s with world }
  | .pollAndAccumulate due found sent written =>
      s.pollAndAccumulate H miner due found sent written
  | .ensureRoundStats round poolHeight close found create found' written =>
      s.ensureRoundStats H miner round poolHeight close found create found'
        written
  | .restart => .ok s.restart

/-- A miner's client from its first start on, on a contract as
published. -/
def minerClient (H : HashFn) (publisher miner : Address) :
    Machine Abort State Event where
  init := ⟨World.init publisher, .new, none, [], []⟩
  step := State.step H miner

end M1n3Protocol.Client
