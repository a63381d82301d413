/-
The sidecar's proxy on one connection: what it keeps of the lines that
pass through it, and the shares it puts on the flusher's queue.

# What it looks at

Every line is passed on as it is; one that is no JSON is passed on unread.
Of the others the proxy sees whether a miner subscribes or submits, and
whether the upstream assigns an extranonce, announces a job or answers.
Three things are kept for the answer to a share: the share as it would be
submitted, under the id of the request, with the id of its job; each job's
template; and the extranonce last heard of.

# JSON

A message is a value of `serde_json`, as far as it is looked at: a number
is told apart where it is an unsigned integer of 64 bits.
-/
import M1n3Protocol.Client.SubmitBatch
import Mathlib.Logic.Function.Basic

namespace M1n3Protocol.Sidecar

open Client

-- ================================================================ messages

inductive Json
  | null
  | bool (b : Bool)
  | number (n : Option U64)
  | string (s : Text)
  | array (values : List Json)
  | object (fields : List (Text × Json))

namespace Json

def get (key : String) : Json → Option Json
  | .object fields => fields.lookup key.toList
  | _ => none

theorem get_object (key : String) (fields : List (Text × Json)) :
    (object fields).get key = fields.lookup key.toList := rfl

def asStr : Json → Option Text
  | .string s => some s
  | _ => none

def asU64 : Json → Option U64
  | .number n => n
  | _ => none

def asBool : Json → Option Bool
  | .bool b => some b
  | _ => none

def asArray : Json → Option (List Json)
  | .array values => some values
  | _ => none

def method (msg : Json) : Option Text := (msg.get "method").bind asStr

def id (msg : Json) : Option U64 := (msg.get "id").bind asU64

def params (msg : Json) : Option (List Json) :=
  (msg.get "params").bind asArray

/-- Whether an answer says yes. -/
def accepted (msg : Json) : Bool :=
  ((msg.get "result").bind asBool).getD false

end Json

/-- The text at `i`. -/
def text (values : List Json) (i : Nat) : Option Text :=
  values[i]?.bind Json.asStr

-- =============================================================== the state

structure Proxy where
  jobs : Text → Option (Text × U32)
  extranonce1 : Bytes
  subscribeId : Option U64
  pending : U64 → Option (Text × PendingShare)
  shareTx : List Item
  silentlyDroppedShares : Nat

def Proxy.init : Proxy :=
  { jobs := fun _ => none, extranonce1 := [], subscribeId := none,
    pending := fun _ => none, shareTx := [], silentlyDroppedShares := 0 }

-- ========================================================== from the miner

def parseSubmitParams (params : List Json) : Option PendingShare := do
  let extranonce2 ← (← text params 2) |> Hex.decode
  let ntime ← (← text params 3) |> Hex.ofRadix 32
  let nonce ← (← text params 4) |> Hex.ofRadix 32
  let version := ((text params 5).bind (Hex.ofRadix 32)).getD 0
  return { extranonce1 := [], extranonce2, ntime, nonce, version }

def Proxy.trackSubscribeRequest (p : Proxy) (msg : Json) : Proxy :=
  if msg.method = some "mining.subscribe".toList then
    match msg.id with
    | some id => { p with subscribeId := some id }
    | none => p
  else p

/-- The version the proxy knows for a job. -/
def Proxy.templateVersion (p : Proxy) (jobId : Text) : U32 :=
  ((p.jobs jobId).map Prod.snd).getD 0

/-- The share of a submission, with its job and its request's id. -/
def Proxy.captured (p : Proxy) (msg : Json) :
    Option (U64 × Text × PendingShare) :=
  if msg.method = some "mining.submit".toList then do
    let id ← msg.id
    let params ← msg.params
    let jobId ← text params 1
    let share ← parseSubmitParams params
    return (id, jobId, { share with
      version := (p.templateVersion jobId &&& ~~~Const.versionRollingMask)
        ||| (share.version &&& Const.versionRollingMask)
      extranonce1 := p.extranonce1 })
  else none

def Proxy.interceptSubmitRequest (p : Proxy) (msg : Json) : Proxy :=
  match p.captured msg with
  | some (id, entry) =>
      { p with pending := Function.update p.pending id (some entry) }
  | none => p

-- ======================================================= from the upstream

/-- A hex text, where there is one, is the extranonce from now on. -/
def Proxy.setExtranonce1 (p : Proxy) (hex : Option Text) : Proxy :=
  match hex.bind Hex.decode with
  | some bytes => { p with extranonce1 := bytes }
  | none => p

/-- A job without a template is not kept. -/
def Proxy.notify (p : Proxy) (params : List Json) : Proxy :=
  let jobId := (text params 0).getD []
  let templateId := (text params 9).getD []
  let version := ((text params 5).bind (Hex.ofRadix 32)).getD 0
  let cleanJobs := (params[8]?.bind Json.asBool).getD false
  if jobId ≠ [] ∧ templateId ≠ [] then
    let jobs := if cleanJobs then fun _ => none else p.jobs
    { p with
      jobs := Function.update jobs jobId (some (templateId, version)) }
  else p

/-- The answer to a submission. Of an accepted share whose job is not
known only the loss is counted. -/
def Proxy.answered (p : Proxy) (id : U64) (accepted : Bool) : Proxy :=
  match p.pending id with
  | none => p
  | some (jobId, share) =>
      let p := { p with pending := Function.update p.pending id none }
      if !accepted then p
      else match p.jobs jobId with
        | some (templateId, _) =>
            { p with shareTx := p.shareTx ++ [(templateId, share)] }
        | none =>
            { p with silentlyDroppedShares := p.silentlyDroppedShares + 1 }

def Proxy.interceptUpstream (p : Proxy) (msg : Json) : Proxy :=
  if msg.method = some "mining.set_extranonce".toList then
    match msg.params with
    | some params => p.setExtranonce1 (text params 0)
    | none => p
  else if msg.method = some "mining.notify".toList then
    match msg.params with
    | some params => p.notify params
    | none => p
  else match msg.id with
    | none => p
    | some id =>
        if p.subscribeId = some id then
          { p.setExtranonce1 (((msg.get "result").bind Json.asArray).bind
              fun result => text result 1) with subscribeId := none }
        else p.answered id msg.accepted

end M1n3Protocol.Sidecar
