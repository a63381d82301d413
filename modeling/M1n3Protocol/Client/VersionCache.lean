/-
The client's cache of object versions: what a transaction is built from,
what its answer leaves in the cache, and what is dropped on an error.

# References

An owned object goes into a transaction as a reference, its version and
digest. Validators take a transaction only if every reference is the
current one. The client asks the node for a reference once and then goes
by the answers to its own transactions.

# Errors

An error says in words which references were not current. The client scans
the words for ids and forgets those; where there are none it forgets all.
Whether an error is of this kind it tells by two phrases.

# What is left out

Shared objects go in by the version they were shared at, which never
changes. The gas price and its age have no part in this.
-/
import M1n3Protocol.Contract.Base
import M1n3Protocol.Lib.Hex
import M1n3Protocol.Lib.Machine

namespace M1n3Protocol.Client

abbrev ObjectID := BitVec 256

structure ObjectRef where
  version : U64
  digest : Bytes
deriving DecidableEq

/-- The current reference of every object there is. -/
abbrev Objects := ObjectID → Option ObjectRef

-- ============================================================= error texts

/-- `is_ascii_hexdigit` -/
def isHexDigit (c : Char) : Bool := (Hex.value c).isSome

/-- The id of 64 digits. -/
def idOfRun (run : Text) : List ObjectID :=
  if run.length = 64 then
    ((Hex.digits 0 run).map (BitVec.ofNat 256)).toList
  else []

/-- Every run of exactly 64 digits after `0x`. The scan goes on behind a
run, whatever its length. -/
def parseObjectIds : Text → List ObjectID
  | [] => []
  | c :: rest =>
      if c = '0' ∧ rest.head? = some 'x' then
        idOfRun (rest.tail.takeWhile isHexDigit)
          ++ parseObjectIds (rest.tail.dropWhile isHexDigit)
      else parseObjectIds rest
termination_by msg => msg.length
decreasing_by
  · have hdrop : (rest.tail.dropWhile isHexDigit).length
        ≤ rest.tail.length :=
      (List.dropWhile_sublist _).length_le
    have htail : rest.tail.length ≤ rest.length := by
      rw [List.length_tail]
      exact Nat.sub_le _ _
    rw [List.length_cons]
    omega
  · exact Nat.lt_succ_self _

/-- `msg.contains(phrase)` -/
def contains (msg : Text) (phrase : String) : Bool :=
  decide (phrase.toList <:+: msg)

-- =============================================================== the cache

structure VersionCache where
  objVers : Objects
  gasCoin : Option (ObjectID × ObjectRef)

def VersionCache.empty : VersionCache :=
  { objVers := fun _ => none, gasCoin := none }

def VersionCache.insert (c : VersionCache) (id : ObjectID)
    (entry : ObjectRef) : VersionCache :=
  { c with objVers := Function.update c.objVers id (some entry) }

/-- From the cache, or from the node and then kept. -/
def VersionCache.getVer (c : VersionCache) (getObject : Objects)
    (id : ObjectID) : Option (VersionCache × ObjectRef) :=
  match c.objVers id with
  | some cached => some (c, cached)
  | none => (getObject id).map fun entry => (c.insert id entry, entry)

/-- The references of a transaction's inputs, in order. What was fetched
before one fails stays. -/
def VersionCache.getVers (getObject : Objects) :
    VersionCache → List ObjectID →
      VersionCache × Option (List (ObjectID × ObjectRef))
  | c, [] => (c, some [])
  | c, id :: ids =>
      match c.getVer getObject id with
      | none => (c, none)
      | some (c, r) =>
          let (c, refs) := c.getVers getObject ids
          (c, refs.map fun refs => (id, r) :: refs)

/-- The gas coin's reference, from the cache or one of the coins. -/
def VersionCache.gasRef (c : VersionCache)
    (getCoin : Option (ObjectID × ObjectRef)) :
    Option (VersionCache × ObjectID × ObjectRef) :=
  match c.gasCoin with
  | some coin => some (c, coin)
  | none => getCoin.map fun coin => ({ c with gasCoin := some coin }, coin)

inductive ObjectChange
  | mutated (id : ObjectID) (entry : ObjectRef)
  | created (id : ObjectID) (entry : ObjectRef)
  | transferred (id : ObjectID) (entry : ObjectRef)
  /-- Deleted, wrapped or published. -/
  | other (id : ObjectID)

def ObjectChange.entry : ObjectChange → Option (ObjectID × ObjectRef)
  | .mutated id entry | .created id entry | .transferred id entry =>
      some (id, entry)
  | .other _ => none

def VersionCache.updateFromResp (c : VersionCache)
    (changes : List ObjectChange) : VersionCache :=
  let c := (changes.filterMap ObjectChange.entry).foldl
    (fun c e => c.insert e.1 e.2) c
  { c with gasCoin := c.gasCoin.bind fun coin =>
      (c.objVers coin.1).map fun entry => (coin.1, entry) }

/-- What an error leaves. The gas coin is forgotten on any. -/
def VersionCache.invalidate (c : VersionCache) (msg : Text) :
    VersionCache :=
  let c := { c with gasCoin := none }
  if contains msg "unavailable for consumption" || contains msg "version" then
    let stale := parseObjectIds msg
    if stale = [] then { c with objVers := fun _ => none }
    else { c with objVers := fun id =>
      if id ∈ stale then none else c.objVers id }
  else c

/-- What becomes of a transaction: no response, or one that says whether
it aborted and what it changed. -/
inductive Outcome
  | error (msg : Text)
  | response (aborted : Bool) (changes : List ObjectChange)

/-- After an abort the caller returns before the cache is brought up to
date. -/
def VersionCache.finish (c : VersionCache) : Outcome → VersionCache
  | .error msg => c.invalidate msg
  | .response true _ => c
  | .response false changes => c.updateFromResp changes

-- ============================================================== the machine

structure Versioned where
  objects : Objects
  cache : VersionCache

/-- The references a transaction of these inputs is built from, its gas
coin first, and the cache then. -/
def VersionCache.build (c : VersionCache) (getObject : Objects)
    (getCoin : Option (ObjectID × ObjectRef)) (inputs : List ObjectID) :
    VersionCache × Option (List (ObjectID × ObjectRef)) :=
  match c.getVers getObject inputs with
  | (c, none) => (c, none)
  | (c, some refs) =>
      match c.gasRef getCoin with
      | none => (c, none)
      | some (c, coin) => (c, some (coin :: refs))

inductive Versioned.Event
  /-- A transaction of the client, and the objects after it. -/
  | submit (inputs : List ObjectID) (getObject : Objects)
      (getCoin : Option (ObjectID × ObjectRef)) (outcome : Outcome)
      (objects : Objects)
  /-- Others change objects. -/
  | outside (objects : Objects)

/-- All references are current. -/
def current (objects : Objects) (refs : List (ObjectID × ObjectRef)) :
    Bool :=
  refs.all fun r => objects r.1 = some r.2

def Versioned.step (s : Versioned) :
    Versioned.Event → Except Unit Versioned
  | .submit inputs getObject getCoin outcome objects =>
      match s.cache.build getObject getCoin inputs with
      | (cache, none) => .ok { s with cache := cache }
      | (cache, some refs) =>
          match outcome with
          | .error msg =>
              .ok { objects := objects, cache := cache.finish (.error msg) }
          | .response aborted changes =>
              if current s.objects refs then
                .ok { objects := objects
                      cache := cache.finish (.response aborted changes) }
              else .error ()
  | .outside objects => .ok { s with objects := objects }

/-- A client that starts on a chain with these objects. -/
def versioned (objects : Objects) :
    Machine Unit Versioned Versioned.Event :=
  { init := { objects := objects, cache := .empty },
    step := Versioned.step }

end M1n3Protocol.Client
