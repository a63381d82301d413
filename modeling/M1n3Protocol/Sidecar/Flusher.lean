/-
The sidecar's batch flusher: the queue of accepted shares, the batch it
fills, and what becomes of the batch when it is flushed.

# Steps

`batch_flusher` waits for three things: a share on its queue, its ticker,
and a new config for minting. A flush is part of the first two, and
nothing else is taken while it lasts. The queue is never closed, since
`run` keeps a sender of its own. What is done on the market after a
confirmed batch is a call like anyone's.

# Transactions without an answer

A transaction that was sent and got an error for an answer may take effect
later (`land`). It holds the versions of the miner's objects it was built
with, so once another transaction with them is executed it no longer can.

# Text

Errors are lowered and searched. Only ASCII is lowered here; what else
lowers to ASCII is in none of the words searched for.

# What the flusher forgets

What came onto the queue, what became of each batch that was not put
back, and what took effect late are in `queued`, `settled` and `landed`.
They are written here and read by no source function.
-/
import M1n3Protocol.Client.SubmitBatch
import Mathlib.Data.List.Infix

namespace M1n3Protocol.Sidecar

open Client

-- ============================================================= the errors

def contains (s : Text) (word : String) : Bool :=
  decide (word.toList <:+: s)

/-- Whether an error is taken for one of the connection. An abort says
that it is one, whatever else is in it. -/
def isTransientRpcError (e : Text) : Bool :=
  let s := e.map Char.toLower
  if contains s "aborted on chain" then false
  else contains s "timeout"
    || contains s "connection reset"
    || contains s "connection refused"
    || contains s "transport error"
    || contains s "decode error"
    || contains s "unavailable for consumption"
    || contains s "needs to be rebuilt"

-- ============================================================== the state

structure Config where
  miner : Address
  /-- `ObjectID::from_str`. -/
  objectId : Text → Option ID
  /-- The order all shares are paid from, if there is one. -/
  hashpowerBuy : Option ID
  batchSize : Nat

/-- A transaction as it was sent. -/
structure SentTx where
  lane : BatchLane
  prepared : Prepared
  batch : List Item
  calls : List (ID × Submission)

/-- A batch that was not put back: the chain it was built on, how it was
submitted, and whether it was confirmed or dropped. -/
structure Settlement where
  batch : List Item
  before : World
  lane : BatchLane
  attempt : Attempt
  confirmed : Bool

structure State where
  world : World
  hashshare : Option ID
  queue : List Item
  batch : List Item
  sent : List SentTx
  queued : List Item
  settled : List Settlement
  landed : List Item

def State.init (publisher : Address) (hashshare : Option ID) : State :=
  { world := World.init publisher, hashshare := hashshare, queue := [],
    batch := [], sent := [], queued := [], settled := [], landed := [] }

def State.lane (cfg : Config) (s : State) : BatchLane :=
  match cfg.hashpowerBuy with
  | some order => .buyerPay order
  | none => .pool s.hashshare

-- ============================================================== the flush

/-- An attempt that is not possible is refused: one that sends a
transaction although an id names no object, or sends it back in time. -/
def State.submitBatch (H : HashFn) (cfg : Config) (s : State)
    (batch : List Item) : Attempt → Except Unit (State × Except Text Unit)
  | .unsent error => .ok (s, .error error)
  | .unanswered prepared error =>
      match resolve cfg.objectId batch with
      | none => .error ()
      | some calls =>
          .ok ({ s with
            sent := s.sent ++ [⟨s.lane cfg, prepared, batch, calls⟩] },
            .error error)
  | .answered prepared epoch timestampMs status digest =>
      match resolve cfg.objectId batch,
          s.world.beginTx cfg.miner epoch timestampMs with
      | some calls, .ok w =>
          match executePtb H (s.lane cfg) prepared calls w with
          | .ok world => .ok ({ s with
              world := world
              sent := [] }, .ok ())
          | .error _ => .ok ({ s with sent := [] },
              .error ((s.lane cfg).aborted status digest))
      | _, _ => .error ()

def State.flush (H : HashFn) (cfg : Config) (s : State) (attempt : Attempt) :
    Except Unit State :=
  if s.batch = [] then .ok s
  else
    let items := s.batch
    let settle (confirmed : Bool) : Settlement :=
      ⟨items, s.world, s.lane cfg, attempt, confirmed⟩
    match State.submitBatch H cfg { s with batch := [] } items attempt with
    | .error e => .error e
    | .ok (s, .ok ()) =>
        .ok { s with settled := s.settled ++ [settle true] }
    | .ok (s, .error e) =>
        if isTransientRpcError e then
          .ok { s with batch := s.batch ++ items }
        else .ok { s with settled := s.settled ++ [settle false] }

-- =============================================================== the steps

/-- A share from the queue. -/
def State.recv (H : HashFn) (cfg : Config) (s : State) (attempt : Attempt) :
    Except Unit State :=
  match s.queue with
  | [] => .error ()
  | item :: rest =>
      let s := { s with
        queue := rest
        batch := s.batch ++ [item] }
      if cfg.batchSize ≤ s.batch.length then s.flush H cfg attempt
      else .ok s

/-- A transaction without an answer is executed after all. -/
def State.land (H : HashFn) (cfg : Config) (s : State) (i : Nat)
    (epoch timestampMs : U64) : Except Unit State :=
  match s.sent[i]?, s.world.beginTx cfg.miner epoch timestampMs with
  | some tx, .ok w =>
      match executePtb H tx.lane tx.prepared tx.calls w with
      | .ok world => .ok { s with
          world := world
          sent := []
          landed := s.landed ++ tx.batch }
      | .error _ => .ok { s with sent := [] }
  | _, _ => .error ()

inductive Event
  /-- Anything else on the chain. -/
  | call (c : Call)
  /-- A connection sends an accepted share. -/
  | queue (item : Item)
  /-- The three things the flusher waits for, with what a flush would
  meet. -/
  | recv (attempt : Attempt)
  | tick (attempt : Attempt)
  | setHashshareMint (cap : ID)
  | land (i : Nat) (epoch timestampMs : U64)

def State.step (H : HashFn) (cfg : Config) (s : State) :
    Event → Except Unit State
  | .call c =>
      match s.world.exec H c with
      | .ok world => .ok { s with world := world }
      | .error _ => .error ()
  | .queue item => .ok { s with
      queue := s.queue ++ [item]
      queued := s.queued ++ [item] }
  | .recv attempt => s.recv H cfg attempt
  | .tick attempt => s.flush H cfg attempt
  | .setHashshareMint cap => .ok { s with hashshare := some cap }
  | .land i epoch timestampMs => s.land H cfg i epoch timestampMs

/-- The sidecar from its start, on a contract as published. -/
def batchFlusher (H : HashFn) (cfg : Config) (publisher : Address)
    (hashshare : Option ID) : Machine Unit State Event :=
  { init := .init publisher hashshare, step := State.step H cfg }

end M1n3Protocol.Sidecar
