/-
One connection with the stratum server itself at the other end: its
handler's loop, and the sidecar's proxy between it and a miner.

# What the handler does

It reads a line, answers it, and then writes what the method calls for:
a difficulty and a job after a subscription, a mask after a configuration,
an extranonce after an authorization with an address. Each of these is a
write of its own (`Due`), made of what the server's state is then. Others
move in between: the rest of the server takes its own steps, and what it
broadcasts is written to this socket too.

# What a line is

A line is a JSON value, whose objects name no key twice. A request is read
by `serde`, which takes a struct's fields in order as well as by name, and
skips what is no request. What the server writes is kept as what it says
(`Line`) until the proxy reads it.

# How it ends

Where an address is cut inside a character the handler panics: it reads no
more, and its entry stays. Otherwise a connection that ends takes its proxy
along, so a run here is one while it lasts.
-/
import M1n3Protocol.Sidecar.Connection

namespace M1n3Protocol.Sidecar

-- ================================================================ requests

structure StratumRequest where
  id : Json
  method : Text
  params : List Json

def parseRequest : Json → Option StratumRequest
  | .object fields => do
      let id ← fields.lookup "id".toList
      let method ← (fields.lookup "method".toList).bind Json.asStr
      let params ← match fields.lookup "params".toList with
        | none => some []
        | some params => params.asArray
      return { id, method, params }
  | .array [id, .string method] => some { id, method, params := [] }
  | .array [id, .string method, .array params] =>
      some { id, method, params }
  | _ => none

/-- The first parameter of an authorization, or what stands for it. -/
def username (params : List Json) : Text :=
  (paramText (params.map Json.value) 0).getD "unknown".toList

/-- The extranonce of the address a username begins with. -/
def derivedFrom (params : List Json) : Option Text :=
  (suiAddressOf (username params)).bind deriveExtranonce1FromSuiAddress

/-- There is an address, and nothing to slice of it. -/
def authorizePanics (params : List Json) : Bool :=
  (suiAddressOf (username params)).isSome && (derivedFrom params).isNone

-- ================================================================== lines

inductive Reply
  | subscribed (extranonce1 : Text)
  | yes
  | configured
  | refused (code : U64) (message : Text)

def versionMask : Text := Hex.padded 8 Const.versionRollingMask.toNat

/-- A `StratumResponse`, of which only one of the two is there. -/
def Reply.fields : Reply → List (Text × Json)
  | .subscribed extranonce1 => [("result".toList, .array [
      .array [
        .array [.string "mining.notify".toList,
          .string "subscription_id".toList],
        .array [.string "mining.set_difficulty".toList,
          .string "subscription_id".toList]],
      .string extranonce1, .number (some 8)])]
  | .yes => [("result".toList, .bool true)]
  | .configured => [("result".toList, .object [
      ("version-rolling".toList, .bool true),
      ("version-rolling.mask".toList, .string versionMask)])]
  | .refused code message => [("error".toList, .array [
      .number (some code), .string message])]

/-- What the server writes. A difficulty goes out as a float. -/
inductive Line
  | reply (id : Json) (body : Reply)
  | setDifficulty (difficulty : U64)
  | notify (job : MiningJob)
  | setVersionMask
  | setExtranonce (extranonce1 : Text)

def notification (method : String) (params : List Json) : Json :=
  .object [
    ("id".toList, .null),
    ("method".toList, .string method.toList),
    ("params".toList, .array params)]

def Line.json : Line → Json
  | .reply id body => .object (("id".toList, id) :: body.fields)
  | .setDifficulty _ => notification "mining.set_difficulty" [.number none]
  | .notify job => createJobNotification job
  | .setVersionMask =>
      notification "mining.set_version_mask" [.string versionMask]
  | .setExtranonce extranonce1 => Sidecar.setExtranonce extranonce1

/-- Never told below one. -/
def difficultyLine (difficulty : U64) : Line :=
  .setDifficulty (if difficulty < 1 then 1 else difficulty)

-- ============================================================= the handler

/-- Nothing where the handler panics. -/
def handleStratumRequest (H : HashFn) (cfg : M1n3Protocol.Config)
    (s : ServerState) (addr : SocketAddr) (extranonce1 : Text)
    (request : StratumRequest) :
    Option (ServerState × Reply × Option U64) :=
  if request.method = "mining.subscribe".toList then
    some (s, .subscribed extranonce1, none)
  else if request.method = "mining.authorize".toList then
    if authorizePanics request.params then none
    else some (s.setMiner addr ((s.miners addr).map fun m =>
      m.authorized (request.params.map Json.value)), .yes, none)
  else if request.method = "mining.submit".toList then
    match validateAndSubmitShare H cfg s addr
        (M1n3Protocol.parseSubmitParams (request.params.map Json.value)) with
    | (s, .ok (true, newDiff)) => some (s, .yes, newDiff)
    | (s, .ok (false, _)) =>
        some (s, .refused 23 "Low difficulty share".toList, none)
    | (s, .error e) => some (s, .refused 20 e.message.toList, none)
  else if request.method = "mining.configure".toList then
    some (s, .configured, none)
  else if request.method = "mining.suggest_difficulty".toList then
    some (s, .yes, none)
  else if request.method = "mining.extranonce.subscribe".toList then
    some (s, .yes, none)
  else some (s, .refused 20 "Unknown method".toList, none)

/-- What is still to be written for the request at hand. -/
inductive Due
  | answer (lines : List Line)
  | firstJob
  | versionMask
  | extranonce

def jobLine (s : ServerState) : List Line :=
  (s.currentJob.map Line.notify).toList

/-- What is written of it, from the state as it is then. -/
def Due.lines (s : ServerState) (addr : SocketAddr) : Due → List Line
  | .answer lines => lines
  | .firstJob => difficultyLine
      (((s.miners addr).map fun m => m.difficulty).getD s.globalDifficulty)
      :: jobLine s
  | .versionMask => [.setVersionMask]
  | .extranonce => match s.miners addr with
    | none => []
    | some m =>
        if m.suiAddress.isSome then .setExtranonce m.extranonce1 :: jobLine s
        else []

/-- What follows the answer. -/
def followUp (method : Text) : List Due :=
  if method = "mining.subscribe".toList then [.firstJob]
  else if method = "mining.configure".toList then [.versionMask]
  else if method = "mining.authorize".toList then [.extranonce]
  else []

-- ============================================================ the connection

structure Link where
  server : ServerState
  /-- The handler's own, from when the miner connected. -/
  extranonce1 : Text
  reading : Bool
  due : List Due
  toServer : List Request
  toProxy : List Line
  proxy : Proxy

/-- From the moment the handler has made its entry. -/
def Link.init (server : ServerState) (addr : SocketAddr) (random : U32) :
    Link :=
  { server := server.setMiner addr (some (connected server random))
    extranonce1 := Hex.padded 8 random.toNat
    reading := true
    due := []
    toServer := []
    toProxy := []
    proxy := .init }

/-- The handler reads the next line, with nothing left to write. -/
def Link.read (H : HashFn) (cfg : M1n3Protocol.Config) (addr : SocketAddr)
    (s : Link) : Except Unit Link :=
  match s.reading, s.due, s.toServer with
  | true, [], r :: rest =>
      let s := { s with toServer := rest }
      match parseRequest r.msg with
      | none => .ok s
      | some request =>
          match handleStratumRequest H cfg s.server addr s.extranonce1
              request with
          | none => .ok { s with reading := false }
          | some (server, reply, newDiff) => .ok { s with
              server := server
              due := .answer (.reply request.id reply
                  :: (newDiff.map difficultyLine).toList)
                :: followUp request.method }
  | _, _, _ => .error ()

/-- What only this connection's handler does. -/
def ownEvent (addr : SocketAddr) : M1n3Protocol.Event → Bool
  | .connect who _ => who = addr
  | .disconnect who => who = addr
  | .authorize who _ => who = addr
  | .submit who _ => who = addr
  | _ => false

/-- What is broadcast. -/
inductive Notice
  | newJob (difficulty : U64) (job : MiningJob)
  | difficulty (difficulty : U64)

def Notice.lines : Notice → List Line
  | .newJob d job => [difficultyLine d, .notify job]
  | .difficulty d => [difficultyLine d]

inductive Link.Event
  /-- The proxy reads a line of the miner. -/
  | fromMiner (msg : Json)
  | read
  /-- The handler makes its next write. -/
  | write
  /-- The rest of the server. -/
  | server (e : M1n3Protocol.Event)
  | notice (n : Notice)
  /-- The proxy reads a line of the server. -/
  | fromServer

def Link.step (H : HashFn) (cfg : M1n3Protocol.Config) (addr : SocketAddr)
    (s : Link) : Link.Event → Except Unit Link
  | .fromMiner msg => .ok { s with
      proxy := (s.proxy.trackSubscribeRequest msg).interceptSubmitRequest msg
      toServer := s.toServer ++ [⟨msg, s.proxy⟩] }
  | .read => s.read H cfg addr
  | .write =>
      match s.due with
      | [] => .error ()
      | d :: due => .ok { s with
          due := due
          toProxy := s.toProxy ++ d.lines s.server addr }
  | .server e =>
      if ownEvent addr e then .error ()
      else (s.server.step H cfg e).map fun server =>
        { s with server := server }
  | .notice n => .ok { s with toProxy := s.toProxy ++ n.lines }
  | .fromServer =>
      match s.toProxy with
      | [] => .error ()
      | line :: rest => .ok { s with
          proxy := s.proxy.interceptUpstream line.json
          toProxy := rest }

/-- A connection, made while the server was in some state. -/
def link (H : HashFn) (cfg : M1n3Protocol.Config) (server : ServerState)
    (addr : SocketAddr) (random : U32) : Machine Unit Link Link.Event :=
  { init := .init server addr random, step := Link.step H cfg addr }

end M1n3Protocol.Sidecar
