/-
`slot_watcher.rs` and the flusher's side of it: the sidecar polls for
slots bound to rounds and swaps the coin it mints.

# What it remembers

The caps it has seen, for as long as it runs. An event whose cap it has
seen is passed over, so each slot is configured once, whatever becomes of
its label.

# Two tasks

A configuration goes through a channel; the flusher takes them out one at
a time, each in the place of the one before.
-/
import M1n3Protocol.Sidecar.Proxy

namespace M1n3Protocol.Sidecar

-- =================================================================== events

/-- The event of a round that has taken a slot. -/
structure SlotBoundToRound where
  roundId : U64
  capId : ID
  label : Bytes
  boundAtRoundIdx : U64
deriving DecidableEq

/-- How a full node writes an event: an address as a text of its own, a
vector of bytes as an array or a string, by its version. -/
structure Node where
  address : ID → Text
  address_inj : ∀ {a b}, address a = address b → a = b
  byteVector : Bytes → Json

/-- Of the fields, those the watcher reads. -/
def Node.parsedJson (node : Node) (e : SlotBoundToRound) : Json :=
  .object [("cap_id".toList, .string (node.address e.capId)),
    ("label".toList, node.byteVector e.label)]

/-- `suix_queryEvents`, 50 of a type in descending order; `events` is all
there are, the oldest first. -/
def newest (events : List SlotBoundToRound) : List SlotBoundToRound :=
  events.reverse.take 50

-- =========================================================== configurations

structure HashShareMintConfig where
  registryId : ID
  treasuryCapId : ID
  hashshareType : Text
deriving DecidableEq

/-- The arguments the watcher and the flusher start with, and what the SDK
reads ids and types by. -/
structure SlotConfig where
  packageId : Text
  registryId : Text
  /-- Of the command line, if there is one. -/
  initial : Option HashShareMintConfig
  /-- `ObjectID::from_str`. -/
  objectId : Text → Option ID
  /-- `TypeTag::from_str`, a type under its canonical text. -/
  typeTag : Text → Option Text

def SlotConfig.fromStrings (cfg : SlotConfig)
    (registryId treasuryCapId hashshareType : Text) :
    Option HashShareMintConfig := do
  let registryId ← cfg.objectId registryId
  let treasuryCapId ← cfg.objectId treasuryCapId
  let hashshareType ← cfg.typeTag hashshareType
  return { registryId, treasuryCapId, hashshareType }

/-- `String::from_utf8` -/
def fromUtf8 (bytes : Bytes) : Option Text :=
  (String.fromUTF8? ⟨(bytes.map UInt8.ofBitVec).toArray⟩).map String.toList

/-- The bytes of an array, each cut to eight bits, or a string as it
is. -/
def parseByteArray (v : Json) : Option Text :=
  match v.asArray with
  | some arr =>
      (arr.mapM Json.asU64).bind fun bytes =>
        fromUtf8 (bytes.map fun n => n.setWidth 8)
  | none => v.asStr

def stripUnderscore : Text → Text
  | '_' :: rest => rest
  | rest => rest

def labelToHashshareType (packageId : Text) : Text → Option Text
  | 'H' :: 'S' :: rest =>
      let num := stripUnderscore rest
      if num.isEmpty || !num.all Char.isDigit then none
      else some (packageId ++ "::hs_".toList ++ num ++ "::HS_".toList ++ num)
  | _ => none

/-- The configuration of an event with that cap. -/
def SlotConfig.mintConfig (cfg : SlotConfig) (capId : Text) (parsed : Json) :
    Option HashShareMintConfig := do
  let label ← (parsed.get "label").bind parseByteArray
  let hsType ← labelToHashshareType cfg.packageId label
  cfg.fromStrings cfg.registryId capId hsType

-- ============================================================= the two tasks

structure Watcher where
  /-- The caps of the events handled. -/
  seen : List Text
  /-- The channel: configurations sent and not applied yet. -/
  queue : List HashShareMintConfig
  /-- The flusher's configuration. -/
  active : Option HashShareMintConfig
deriving DecidableEq

def Watcher.start (cfg : SlotConfig) : Watcher := ⟨[], [], cfg.initial⟩

/-- One event of a page. -/
def Watcher.handle (cfg : SlotConfig) (w : Watcher) (parsed : Json) :
    Watcher :=
  match (parsed.get "cap_id").bind Json.asStr with
  | none => w
  | some capId =>
      if capId ∈ w.seen then w
      else { w with
        seen := capId :: w.seen
        queue := w.queue ++ (cfg.mintConfig capId parsed).toList }

/-- A page, in the order it came. -/
def Watcher.readPage (cfg : SlotConfig) (w : Watcher) (page : List Json) :
    Watcher :=
  page.foldl (Watcher.handle cfg) w

/-- `cfg_rx.recv`: nothing happens while the channel is empty. -/
def Watcher.applyNext (w : Watcher) : Watcher :=
  match w.queue with
  | [] => w
  | cfg :: queue => { w with queue, active := some cfg }

-- ============================================================= what they do

/-- The configuration of an event as the node writes it. -/
def SlotConfig.configOf (cfg : SlotConfig) (node : Node)
    (e : SlotBoundToRound) : Option HashShareMintConfig :=
  cfg.mintConfig (node.address e.capId) (node.parsedJson e)

/-- Whether the watcher has not handled an event of this cap. -/
def Watcher.unseen (w : Watcher) (node : Node) (e : SlotBoundToRound) : Bool :=
  !w.seen.contains (node.address e.capId)

variable {cfg : SlotConfig} {node : Node}

theorem Node.capId_get (e : SlotBoundToRound) :
    ((node.parsedJson e).get "cap_id").bind Json.asStr
      = some (node.address e.capId) := by
  rw [parsedJson, Json.get_object, List.lookup_cons]
  rfl

theorem Watcher.handle_event (w : Watcher) (e : SlotBoundToRound) :
    w.handle cfg (node.parsedJson e)
      = if w.unseen node e then { w with
          seen := node.address e.capId :: w.seen
          queue := w.queue ++ (cfg.configOf node e).toList }
        else w := by
  unfold handle
  rw [Node.capId_get]
  unfold unseen
  by_cases hmem : node.address e.capId ∈ w.seen
  · simp [hmem]
  · simp [hmem, SlotConfig.configOf]

/-- Once an event is handled, what is new of others is new still. -/
theorem Watcher.filter_unseen {page : List SlotBoundToRound}
    {e : SlotBoundToRound} (hcap : e.capId ∉ page.map SlotBoundToRound.capId)
    (w : Watcher) (queue : List HashShareMintConfig) :
    page.filter (Watcher.unseen
        { w with seen := node.address e.capId :: w.seen, queue } node)
      = page.filter (w.unseen node) := by
  apply List.filter_congr
  intro e' he'
  have hne : node.address e'.capId ≠ node.address e.capId := by
    intro heq
    apply hcap
    rw [← node.address_inj heq]
    exact List.mem_map_of_mem he'
  simp [unseen, hne]

/-- Of a page whose caps are all different, what is new to the watcher is
handled, and the configurations there are sent in its order. -/
theorem Watcher.readPage_events (cfg : SlotConfig)
    {page : List SlotBoundToRound}
    (hcaps : (page.map SlotBoundToRound.capId).Nodup) (w : Watcher) :
    (∀ t, t ∈ (w.readPage cfg (page.map node.parsedJson)).seen
        ↔ t ∈ w.seen ∨ ∃ e ∈ page, node.address e.capId = t)
      ∧ (w.readPage cfg (page.map node.parsedJson)).queue
        = w.queue ++ (page.filter (w.unseen node)).filterMap
          (cfg.configOf node)
      ∧ (w.readPage cfg (page.map node.parsedJson)).active = w.active := by
  induction page generalizing w with
  | nil =>
      refine ⟨fun t => ?_, (List.append_nil _).symm, rfl⟩
      show t ∈ w.seen ↔ _
      simp
  | cons e page ih =>
      rw [List.map_cons, List.nodup_cons] at hcaps
      obtain ⟨hfirst, hrest⟩ := hcaps
      have hstep : w.readPage cfg ((e :: page).map node.parsedJson)
          = (w.handle cfg (node.parsedJson e)).readPage cfg
            (page.map node.parsedJson) := rfl
      rw [hstep, Watcher.handle_event]
      by_cases hnew : w.unseen node e
      · rw [if_pos hnew]
        obtain ⟨hseen, hqueue, hactive⟩ := ih hrest
          { w with
            seen := node.address e.capId :: w.seen
            queue := w.queue ++ (cfg.configOf node e).toList }
        refine ⟨fun t => ?_, ?_, hactive⟩
        · rw [hseen]
          simp only [List.mem_cons, exists_eq_or_imp]
          tauto
        · rw [hqueue, filter_unseen hfirst, List.filter_cons_of_pos hnew,
            List.append_assoc]
          congr 1
          cases hconfig : cfg.configOf node e with
          | none => simp [hconfig]
          | some c => simp [hconfig]
      · rw [if_neg hnew]
        obtain ⟨hseen, hqueue, hactive⟩ := ih hrest w
        have hold : node.address e.capId ∈ w.seen := by
          simpa [unseen] using hnew
        refine ⟨fun t => ?_, ?_, hactive⟩
        · rw [hseen]
          constructor
          · rintro (h | ⟨e', he', rfl⟩)
            · exact .inl h
            · exact .inr ⟨e', List.mem_cons_of_mem _ he', rfl⟩
          · rintro (h | ⟨e', he', rfl⟩)
            · exact .inl h
            · rcases List.mem_cons.mp he' with rfl | he'
              · exact .inl hold
              · exact .inr ⟨e', he', rfl⟩
        · rw [hqueue, List.filter_cons_of_neg hnew]

end M1n3Protocol.Sidecar
