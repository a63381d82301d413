/-
The stratum server in pooled mode: the templates it reads from the chain,
how it ranks them, and the loop that makes jobs of the one ranked first.

# Maps

A registry is a hash map, so that its templates come in any order when the
cache is filled: it is a list here, each id once, and the cache is filled
from any permutation of it. The cache's own maps are only looked up.

# Objects

What a node says of an object is its content as JSON. The server takes an
index for null where there is no such field, and a null for its default.
Time stamps and counters for the log are left out, and so are the miners'
own preferences, which nothing reads.
-/
import M1n3Protocol.Lib.Machine
import M1n3Protocol.Lib.Ranking
import M1n3Protocol.Keeper.Keeper
import M1n3Protocol.Sidecar.Proxy
import M1n3Protocol.Stratum.Pooled

namespace M1n3Protocol.Pooled

open Sidecar (Json)

-- ============================================================ the queries

/-- A template as it is read, with what it is selected by. -/
structure ObjectData extends TemplateObjectData where
  isActive : Bool
  owner : Text
  shareCount : U64

/-- `fields[key]` -/
def field (fields : Json) (key : String) : Json :=
  (fields.get key).getD .null

def parseU64 (fields : Json) (key : String) : U64 :=
  ((field fields key).asU64.or
    ((field fields key).asStr.bind Keeper.parseU64)).getD 0

/-- `parse::<u32>` -/
def parseU32Text (cs : Text) : Option U32 :=
  ((Keeper.parseU64 cs).filter fun n => n.toNat < 2 ^ 32).map
    fun n => n.setWidth 32

/-- A number is truncated, a text is not. -/
def parseU32 (fields : Json) (key : String) : U32 :=
  (((field fields key).asU64.map fun n => n.setWidth 32).or
    ((field fields key).asStr.bind parseU32Text)).getD 0

/-- The elements that are numbers, truncated. -/
def bytesOf (value : Json) : Bytes :=
  (value.asArray.map fun values =>
    (values.filterMap Json.asU64).map fun n => n.setWidth 8).getD []

def parseBytes (fields : Json) (key : String) : Bytes :=
  bytesOf (field fields key)

def parseTemplateObject (templateId : Text) (fields : Json) : ObjectData :=
  { templateId := templateId
    height := parseU64 fields "height"
    prevBlockHash := parseBytes fields "prev_block_hash"
    coinbase1 := parseBytes fields "coinbase1"
    coinbase2 := parseBytes fields "coinbase2"
    merkleBranches := ((field fields "merkle_branches").asArray.map
      fun branches => branches.map bytesOf).getD []
    version := parseU32 fields "version"
    nbits := parseU32 fields "nbits"
    ntime := parseU32 fields "ntime"
    isActive := ((field fields "is_active").asBool).getD false
    owner := ((field fields "owner").asStr).getD []
    shareCount := parseU64 fields "total_shares" }

structure TemplateData where
  creator : Text
  height : U64
  shareCount : U64
  totalStake : U64
  isActive : Bool
deriving DecidableEq

/-- The templates by id, each id once. -/
abbrev RegistryState := List (Text × TemplateData)

def RegistryState.insert (registry : RegistryState) (templateId : Text)
    (data : TemplateData) : RegistryState :=
  registry.filter (fun p => p.1 ≠ templateId) ++ [(templateId, data)]

/-- Of the ids in the events, the templates that could be fetched. -/
def fetchRegistryState (fetchTemplate : Text → Option ObjectData)
    (templateIds : List Text) : RegistryState :=
  templateIds.foldl (fun registry templateId =>
    match fetchTemplate templateId with
    | some tpl => registry.insert templateId
        { creator := tpl.owner
          height := tpl.height
          shareCount := tpl.shareCount
          totalStake := 0
          isActive := tpl.isActive }
    | none => registry) []

-- ============================================================ the selector

inductive TemplateSelectionMode
  | byCreator (creator : Text)
  | byStake
  | byShares
  | combined
  | default

structure CachedTemplate where
  creator : Text
  height : U64
  shareCount : U64
  totalStake : U64
  isActive : Bool
  templateObject : Option ObjectData

def CachedTemplate.of (data : TemplateData) : CachedTemplate :=
  { creator := data.creator
    height := data.height
    shareCount := data.shareCount
    totalStake := data.totalStake
    isActive := data.isActive
    templateObject := none }

structure TemplateCache where
  templates : Text → Option CachedTemplate
  byCreator : Text → List Text
  stakeRanking : List (Text × U64)
  sharesRanking : List (Text × U64)
  combinedRanking : List (Text × U128)

def TemplateCache.empty : TemplateCache :=
  { templates := fun _ => none, byCreator := fun _ => [],
    stakeRanking := [], sharesRanking := [], combinedRanking := [] }

/-- The product does not overflow its 128 bits. -/
def CachedTemplate.combinedScore (t : CachedTemplate) : U128 :=
  t.totalStake.setWidth 128 * t.shareCount.setWidth 128

/-- One turn of the loop that fills the cache. -/
def TemplateCache.populate (cache : TemplateCache)
    (entry : Text × TemplateData) : TemplateCache :=
  let (templateId, data) := entry
  let cached := CachedTemplate.of data
  let ofCreator := cache.byCreator cached.creator ++ [templateId]
  let cache := { cache with
    byCreator := Function.update cache.byCreator cached.creator ofCreator }
  let cache := if cached.isActive then
      { cache with
        stakeRanking := cache.stakeRanking
          ++ [(templateId, cached.totalStake)]
        sharesRanking := cache.sharesRanking
          ++ [(templateId, cached.shareCount)]
        combinedRanking := cache.combinedRanking
          ++ [(templateId, cached.combinedScore)] }
    else cache
  { cache with
    templates := Function.update cache.templates templateId (some cached) }

def score {w : Nat} (entry : Text × BitVec w) : Nat := entry.2.toNat

/-- From a registry whose templates come in this order. -/
def refreshCache (order : RegistryState) : TemplateCache :=
  let cache := order.foldl TemplateCache.populate .empty
  { cache with
    stakeRanking := Ranking.ranked score cache.stakeRanking
    sharesRanking := Ranking.ranked score cache.sharesRanking
    combinedRanking := Ranking.ranked score cache.combinedRanking }

def TemplateCache.active (cache : TemplateCache) (templateId : Text) :
    Bool :=
  (cache.templates templateId).any fun t => t.isActive

def TemplateCache.selectTemplate (cache : TemplateCache) :
    TemplateSelectionMode → Option Text
  | .byCreator creator =>
      ((cache.byCreator creator).reverse.find? cache.active).or
        (cache.stakeRanking.head?.map Prod.fst)
  | .byStake => cache.stakeRanking.head?.map Prod.fst
  | .byShares => cache.sharesRanking.head?.map Prod.fst
  | .combined => cache.combinedRanking.head?.map Prod.fst
  | .default => none

/-- From the cache, or from the chain and then kept. -/
def TemplateCache.getTemplateData (cache : TemplateCache)
    (templateId : Text) (fetched : Option ObjectData) :
    TemplateCache × Option ObjectData :=
  match (cache.templates templateId).bind fun t => t.templateObject with
  | some data => (cache, some data)
  | none =>
      match fetched with
      | none => (cache, none)
      | some data =>
          let kept := (cache.templates templateId).map fun t =>
            { t with templateObject := some data }
          ({ cache with
             templates := Function.update cache.templates templateId kept },
            some data)

-- ============================================================= the updater

/-- The server's state, as far as the pooled updater writes it. -/
structure Server where
  cache : TemplateCache
  currentTemplateId : Option Text
  currentHeight : U64
  currentPrevHash : Option Bytes
  jobCounter : Nat
  jobs : List (Text × MiningJob)
  currentJob : Option MiningJob
  /-- The keys in the duplicate table. -/
  submittedShares : List Text
  /-- Handed to `notify_all_miners`. -/
  notified : List MiningJob

def Server.init : Server :=
  { cache := .empty, currentTemplateId := none, currentHeight := 0,
    currentPrevHash := none, jobCounter := 0, jobs := [],
    currentJob := none, submittedShares := [], notified := [] }

/-- A job of a template that is not the current one. -/
def Server.publish (H : HashFn) (s : Server) (templateId : Text)
    (data : ObjectData) : Server :=
  let isNewBlock := data.height ≠ s.currentHeight
  let s := if isNewBlock then
      { s with
        currentPrevHash := some (if data.prevBlockHash.length = 32
          then data.prevBlockHash else List.replicate 32 0)
        submittedShares := []
        currentHeight := data.height }
    else s
  let s := { s with jobCounter := s.jobCounter + 1 }
  let job := { createMiningJobFromTemplateObject H (jobIdOf s.jobCounter)
    data.toTemplateObjectData with cleanJobs := isNewBlock }
  { s with
    jobs := insertJob s.jobs job
    currentJob := some job
    currentTemplateId := some templateId
    notified := s.notified ++ [job] }

/-- One turn of the loop, with what the chain would answer. -/
def Server.tick (H : HashFn) (mode : TemplateSelectionMode) (s : Server)
    (fetchTemplate : Text → Option ObjectData) : Server :=
  match (s.cache.selectTemplate mode).or
      (s.cache.selectTemplate .byStake) with
  | none => s
  | some templateId =>
      if s.currentTemplateId = some templateId then s
      else
        let (cache, data) := s.cache.getTemplateData templateId
          (fetchTemplate templateId)
        match data with
        | none => { s with cache := cache }
        | some data => { s with cache := cache }.publish H templateId data

/-- The one job of the override mode, of an object's fields. -/
def overrideJob (H : HashFn) (jobCounter : Nat) (templateId : Text)
    (fields : Json) : MiningJob :=
  createMiningJobFromTemplateObject H (jobIdOf (jobCounter + 1))
    (parseTemplateObject templateId fields).toTemplateObjectData

-- ============================================================ the machines

/-- A registry as it comes out of its map, in any order. -/
def TemplateCache.refresh (fetchTemplate : Text → Option ObjectData)
    (templateIds : List Text) (order : RegistryState) :
    Except Unit TemplateCache :=
  if order.Perm (fetchRegistryState fetchTemplate templateIds) then
    .ok (refreshCache order)
  else .error ()

inductive Selector.Event
  | refresh (fetchTemplate : Text → Option ObjectData)
      (templateIds : List Text) (order : RegistryState)
  | load (templateId : Text) (fetched : Option ObjectData)

/-- A selector, whatever the chain answers. -/
def selector : Machine Unit TemplateCache Selector.Event where
  init := .empty
  step
    | _, .refresh fetchTemplate templateIds order =>
        TemplateCache.refresh fetchTemplate templateIds order
    | cache, .load templateId fetched =>
        .ok (cache.getTemplateData templateId fetched).1

/-- The server beside the chain, whose templates stay as they are made. -/
structure World where
  objects : Text → Option Template
  server : Server

inductive World.Event
  | create (templateId : Text) (t : Template)
  | refresh (reachable : Text → Bool) (templateIds : List Text)
      (order : RegistryState)
  | tick (reachable : Text → Bool)

variable (content : Text → Template → Json)

/-- What comes of a template, where the node answers. -/
def World.fetchTemplate (w : World) (reachable : Text → Bool)
    (templateId : Text) : Option ObjectData :=
  if reachable templateId then
    (w.objects templateId).map fun t =>
      parseTemplateObject templateId (content templateId t)
  else none

def World.step (H : HashFn) (mode : TemplateSelectionMode) (w : World) :
    World.Event → Except Unit World
  | .create templateId t =>
      if (w.objects templateId).isSome then .error ()
      else .ok { w with
        objects := Function.update w.objects templateId (some t) }
  | .refresh reachable templateIds order =>
      (TemplateCache.refresh (w.fetchTemplate content reachable) templateIds
        order).map fun cache =>
          { w with server := { w.server with cache := cache } }
  | .tick reachable => .ok { w with
      server := w.server.tick H mode (w.fetchTemplate content reachable) }

def pooled (H : HashFn) (mode : TemplateSelectionMode) :
    Machine Unit World World.Event where
  init := { objects := fun _ => none, server := .init }
  step := World.step content H mode

end M1n3Protocol.Pooled
