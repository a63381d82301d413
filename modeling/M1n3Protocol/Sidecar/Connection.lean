/-
One connection as a system: a miner, the proxy, and an upstream that is
free in what it sends.

# The upstream

It knows jobs and the state of the miner, and may change either at any
time. It reads the requests in the order in which they were passed on,
accepts a share only if one can be built from it as the stratum server
builds it, and otherwise answers as it likes, or not at all. Answers are
sent in any order, and between them anything else. What it may accept is
all that the stratum server would (`Upstream.mined`).

# In flight

Both directions of the proxy keep the order of the lines. Between the
parties are the requests not yet read, the answers not yet sent, and the
messages not yet read by the proxy.

# What nobody reads

With a request goes the proxy as it was when it passed it on, and with a
message the share it accepts, with the id of its job. `accepted` lists
all shares accepted. These are written here and read by no party.
-/
import M1n3Protocol.Sidecar.Proxy

namespace M1n3Protocol

open Checked

/-- The call a share stands for. -/
def Mined.item (m : Mined) : Client.Item :=
  (m.job.suiTemplateId.getD [],
    { extranonce1 := m.extranonce1
      extranonce2 := m.extranonce2
      ntime := m.ntime
      nonce := m.nonce
      version := m.version })

namespace Sidecar

open Client

-- ============================================================ the upstream

structure Upstream where
  jobs : List (Text × MiningJob)
  miner : MinerState

/-- A parameter as the stratum server reads it. -/
def Json.value : Json → Value
  | .string s => .string s
  | _ => .other

/-- The share a submission stands for. -/
def Upstream.mined (u : Upstream) (share : ShareSubmission) :
    Except SubmitError Mined := do
  validateShareParams share
  let job ← fetch (u.jobs.lookup share.jobId) (.unknownJob share.jobId)
  let ntime ← fetch (Hex.ofRadix 32 share.ntime) .invalidNtime
  Candidate.build ⟨job, u.miner, ntime⟩ share

/-- The announcement of a job, with the id of its template. -/
def createJobNotification (job : MiningJob) : Json :=
  let prevHashStratum := (job.prevBlockHash.toChunks 4).flatMap List.reverse
  .object [
    ("id".toList, .null),
    ("method".toList, .string "mining.notify".toList),
    ("params".toList, .array [
      .string job.jobId,
      .string (Hex.encode prevHashStratum),
      .string (Hex.encode job.coinbase1),
      .string (Hex.encode job.coinbase2),
      .array (job.merkleBranches.map fun b => .string (Hex.encode b)),
      .string (Hex.padded 8 job.version.toNat),
      .string (Hex.padded 8 job.nbits.toNat),
      .string (Hex.padded 8 job.ntime.toNat),
      .bool job.cleanJobs,
      .string (job.suiTemplateId.getD [])])]

/-- The assignment of an extranonce after `mining.authorize`. -/
def setExtranonce (extranonce1 : Text) : Json :=
  .object [
    ("id".toList, .null),
    ("method".toList, .string "mining.set_extranonce".toList),
    ("params".toList, .array [.string extranonce1, .number (some 8)])]

-- ============================================================== the system

/-- A line on its way to the upstream. -/
structure Request where
  msg : Json
  seen : Proxy

/-- A line on its way to the proxy. -/
structure Message where
  msg : Json
  accepts : Option (Text × Item)

structure System where
  proxy : Proxy
  upstream : Upstream
  toUpstream : List Request
  answers : List Message
  toProxy : List Message
  accepted : List Item

def System.init (upstream : Upstream) : System :=
  { proxy := .init, upstream := upstream, toUpstream := [], answers := [],
    toProxy := [], accepted := [] }

/-- An answer echoes the request's id. -/
def Request.reply (r : Request) (fields : List (Text × Json)) : Json :=
  .object (("id".toList, (r.msg.get "id").getD .null) :: fields)

/-- What a request submits. -/
def Request.submission (r : Request) : Option ShareSubmission :=
  if r.msg.method = some "mining.submit".toList then
    r.msg.params.map fun params =>
      M1n3Protocol.parseSubmitParams (params.map Json.value)
  else none

/-- The next request is a share, and is accepted. -/
def System.accept (s : System) : Except Unit System :=
  match s.toUpstream with
  | [] => .error ()
  | r :: rest =>
      match r.submission with
      | none => .error ()
      | some share =>
          match s.upstream.mined share with
          | .error _ => .error ()
          | .ok m => .ok { s with
              toUpstream := rest
              answers := s.answers ++ [⟨r.reply [("result".toList,
                .bool true)], some (share.jobId, m.item)⟩]
              accepted := s.accepted ++ [m.item] }

/-- The next request is answered otherwise. A share is not accepted so. -/
def System.answer (s : System) (fields : List (Text × Json)) :
    Except Unit System :=
  match s.toUpstream with
  | [] => .error ()
  | r :: rest =>
      if r.submission.isSome && (r.reply fields).accepted then .error ()
      else .ok { s with
        toUpstream := rest
        answers := s.answers ++ [⟨r.reply fields, none⟩] }

inductive System.Event
  /-- The proxy reads a line of the miner. -/
  | fromMiner (msg : Json)
  /-- Jobs come and go, and the miner is given another extranonce. -/
  | upstream (u : Upstream)
  | accept
  | answer (fields : List (Text × Json))
  /-- The next request is not answered. -/
  | ignore
  /-- One of the answers is sent. -/
  | respond (i : Nat)
  /-- Anything else is sent. -/
  | push (msg : Json)
  /-- The proxy reads a line of the upstream. -/
  | fromUpstream

def System.step (s : System) : System.Event → Except Unit System
  | .fromMiner msg => .ok { s with
      proxy := (s.proxy.trackSubscribeRequest msg).interceptSubmitRequest msg
      toUpstream := s.toUpstream ++ [⟨msg, s.proxy⟩] }
  | .upstream u => .ok { s with upstream := u }
  | .accept => s.accept
  | .answer fields => s.answer fields
  | .ignore =>
      match s.toUpstream with
      | [] => .error ()
      | _ :: rest => .ok { s with toUpstream := rest }
  | .respond i =>
      match s.answers[i]? with
      | none => .error ()
      | some m => .ok { s with
          answers := s.answers.eraseIdx i
          toProxy := s.toProxy ++ [m] }
  | .push msg => .ok { s with toProxy := s.toProxy ++ [⟨msg, none⟩] }
  | .fromUpstream =>
      match s.toProxy with
      | [] => .error ()
      | m :: rest => .ok { s with
          proxy := s.proxy.interceptUpstream m.msg
          toProxy := rest }

/-- A connection from its start. -/
def connection (upstream : Upstream) : Machine Unit System System.Event :=
  { init := .init upstream, step := System.step }

end Sidecar

end M1n3Protocol
