/-
The slot watcher beside the chain: which of the slots bound so far the
sidecar mints for, under any schedule of bindings, polls, applications
and restarts.

# The order of a page

A page comes newest first and is sent in that order, so the flusher ends
at the oldest slot of those that were new. It ends at the newest where a
page brings no other slot that it can mint for: one usable binding
between two polls, the first poll after a start included.

# What it rests on

The contract binds a cap once and numbers the bindings (`Emitted`), so a
page is a window on a list in order. What the watcher has read reaches up
to its newest event without a gap of less than a page (`Follows`), so
what is new to it is later than all of it.
-/
import M1n3Protocol.Sidecar.SlotWatcher
import M1n3Protocol.Proofs.SlotLedger
import Mathlib.Data.List.MinMax

namespace M1n3Protocol.Sidecar

open Checked

variable {H : HashFn} {reg reg' : HashShareRegistry}
  {events : List SlotBoundToRound}

-- ============================================================ the events

/-- The event of a call, if it has one: a round takes a slot once. -/
def slotBoundEvent (reg reg' : HashShareRegistry) :
    Call → List SlotBoundToRound
  | .slot (.bindSlotToRound roundId) =>
      match reg.rounds roundId, reg'.rounds roundId with
      | none, some b => [⟨roundId, b.capId, b.label, b.boundAtRoundIdx⟩]
      | _, _ => []
  | _ => []

/-- How many slots were bound before. -/
def SlotBoundToRound.place (e : SlotBoundToRound) : Nat :=
  e.boundAtRoundIdx.toNat

structure Emitted (reg : HashShareRegistry)
    (events : List SlotBoundToRound) : Prop where
  binding : ∀ e ∈ events,
    reg.rounds e.roundId = some ⟨e.capId, e.label, e.boundAtRoundIdx⟩
  places : events.map SlotBoundToRound.place = List.range events.length
  total : reg.totalBound.toNat = events.length

theorem Emitted.init (publisher : Address) :
    Emitted (HashShareRegistry.init publisher) [] where
  binding _ he := by cases he
  places := rfl
  total := rfl

/-- A call binds no slot, or one that is next in number. -/
theorem slotBoundEvent_of_step {s s' : Slots} {c : Call}
    (hs : Slots.Step s c s') :
    (slotBoundEvent s.registry s'.registry c = []
        ∧ s'.registry.totalBound = s.registry.totalBound)
      ∨ ∃ e, slotBoundEvent s.registry s'.registry c = [e]
        ∧ s'.registry.rounds e.roundId
          = some ⟨e.capId, e.label, e.boundAtRoundIdx⟩
        ∧ e.boundAtRoundIdx = s.registry.totalBound
        ∧ s'.registry.totalBound.toNat
          = s.registry.totalBound.toNat + 1 := by
  cases hs with
  | settings _ _ _ hbound => exact .inl ⟨rfl, hbound⟩
  | register hok =>
      obtain ⟨-, -, -, -, hbound, -⟩ := registerSlot_ok hok
      exact .inl ⟨rfl, hbound⟩
  | @bind roundId registry b hok =>
      rcases bindSlotToRound_ok hok with ⟨hsome, rfl⟩
        | ⟨hnone, slot, rest, -, rfl, -, -, hrounds, htotal, -⟩
      · refine .inl ⟨?_, rfl⟩
        simp only [slotBoundEvent, hsome]
      · have htaken : registry.rounds roundId
            = some ⟨slot.capId, slot.label, s.registry.totalBound⟩ := by
          rw [hrounds]
          exact if_pos rfl
        refine .inr ⟨⟨roundId, slot.capId, slot.label,
          s.registry.totalBound⟩, ?_, htaken, rfl, htotal⟩
        simp only [slotBoundEvent, hnone, htaken]
  | createCurrency | coinMint | coinBurn | treasuryIntoSupply | coinSplit
  | coinJoin | mintShare | redeem => exact .inl ⟨rfl, rfl⟩

theorem slotBoundEvent_of_off {c : Call} (hoff : c.onSlots = false) :
    slotBoundEvent reg reg' c = [] := by
  cases c with
  | slot => cases hoff
  | _ => rfl

theorem Emitted.step {s s' : Slots} {c : Call}
    (h : Emitted s.registry events) (hs : Slots.Step s c s') :
    Emitted s'.registry
      (events ++ slotBoundEvent s.registry s'.registry c) := by
  have hkept : ∀ e ∈ events, s'.registry.rounds e.roundId
      = some ⟨e.capId, e.label, e.boundAtRoundIdx⟩ :=
    fun e he => hs.rounds_kept (h.binding e he)
  rcases slotBoundEvent_of_step hs with ⟨hnone, htotal⟩
    | ⟨e, hone, hround, hplace, htotal⟩
  · rw [hnone, List.append_nil]
    exact ⟨hkept, h.places, by rw [htotal, h.total]⟩
  · rw [hone]
    constructor
    case binding =>
      intro e' he'
      rcases List.mem_append.mp he' with he' | he'
      · exact hkept e' he'
      · rw [List.mem_singleton.mp he']
        exact hround
    case places =>
      have hlast : e.place = events.length := by
        rw [SlotBoundToRound.place, hplace, h.total]
      rw [List.map_append, h.places, List.map_singleton, hlast,
        List.length_append, List.length_singleton, List.range_succ]
    case total =>
      rw [htotal, h.total, List.length_append, List.length_singleton]

theorem Emitted.exec {w w' : World} {c : Call}
    (h : Emitted w.slots.registry events) (hexec : w.exec H c = .ok w') :
    Emitted w'.slots.registry
      (events ++ slotBoundEvent w.slots.registry w'.slots.registry c) := by
  rcases World.exec_slots hexec with ⟨-, hs⟩ | ⟨hoff, hsame⟩
  · exact h.step hs
  · rw [hsame, slotBoundEvent_of_off hoff, List.append_nil]
    exact h

-- ============================================================= the order

theorem Emitted.sorted (h : Emitted reg events) :
    events.Pairwise fun e e' => e.place < e'.place := by
  rw [← List.pairwise_map (f := SlotBoundToRound.place), h.places]
  exact List.pairwise_lt_range

theorem Emitted.place_lt (h : Emitted reg events) {e : SlotBoundToRound}
    (he : e ∈ events) : e.place < events.length := by
  rw [← List.mem_range, ← h.places]
  exact List.mem_map_of_mem he

theorem Emitted.eq_of_place (h : Emitted reg events)
    {e e' : SlotBoundToRound} (he : e ∈ events) (he' : e' ∈ events)
    (hplace : e.place = e'.place) : e = e' := by
  have hnodup : (events.map SlotBoundToRound.place).Nodup := by
    rw [h.places]
    exact List.nodup_range
  exact List.inj_on_of_nodup_map hnodup he he' hplace

/-- A cap is in one event. -/
theorem Emitted.eq_of_capId {log : SlotLog} (h : Emitted reg events)
    (hl : SlotLedger reg log) {e e' : SlotBoundToRound} (he : e ∈ events)
    (he' : e' ∈ events) (hcap : e.capId = e'.capId) : e = e' := by
  have hround : e.roundId = e'.roundId :=
    hl.bound_once (h.binding e he) (h.binding e' he') hcap
  have hbinding := h.binding e he
  rw [hround, h.binding e' he', Option.some.injEq, RoundBinding.mk.injEq]
    at hbinding
  exact h.eq_of_place he he' (congrArg BitVec.toNat hbinding.2.2.symm)

-- ============================================================== one page

/-- A page is the last 50. -/
theorem Emitted.mem_newest (h : Emitted reg events) (e : SlotBoundToRound) :
    e ∈ newest events ↔ e ∈ events ∧ events.length ≤ e.place + 50 := by
  have hat : ∀ k (hk : k < events.length), events[k].place = k := by
    intro k hk
    have hget : (events.map SlotBoundToRound.place)[k]?
        = (List.range events.length)[k]? := by
      rw [h.places]
    rw [List.getElem?_map, List.getElem?_eq_getElem hk,
      List.getElem?_range hk] at hget
    exact Option.some.inj hget
  rw [newest, List.take_reverse, List.mem_reverse,
    List.mem_drop_iff_getElem]
  constructor
  · rintro ⟨j, hj, rfl⟩
    refine ⟨List.getElem_mem _, ?_⟩
    rw [hat]
    omega
  · rintro ⟨he, hplace⟩
    obtain ⟨k, hk, rfl⟩ := List.getElem_of_mem he
    rw [hat] at hplace
    refine ⟨k - (events.length - 50), by omega, ?_⟩
    congr 1
    omega

theorem Emitted.newest_sorted (h : Emitted reg events) :
    (newest events).Pairwise fun e e' => e'.place < e.place :=
  (List.pairwise_reverse.mpr h.sorted).sublist (List.take_sublist _ _)

theorem Emitted.newest_caps {log : SlotLog} (h : Emitted reg events)
    (hl : SlotLedger reg log) :
    ((newest events).map SlotBoundToRound.capId).Nodup := by
  have hsub : ∀ e ∈ newest events, e ∈ events := fun e he =>
    ((h.mem_newest e).mp he).1
  have hnodup : (newest events).Nodup := by
    refine h.newest_sorted.imp ?_
    rintro e e' hlt rfl
    exact Nat.lt_irrefl _ hlt
  refine (List.nodup_map_iff_inj_on hnodup).mpr ?_
  intro e he e' he' hcap
  exact h.eq_of_capId hl (hsub e he) (hsub e' he') hcap

-- ============================================================ the system

/-- The chain, the events so far and the sidecar. What the watcher has
read and the flusher applied since the last start is written down and read
by none. -/
structure Watching where
  world : World
  events : List SlotBoundToRound
  watcher : Watcher
  read : List SlotBoundToRound
  applied : List HashShareMintConfig

inductive WatchStep
  | call (c : Call)
  | poll
  | pollFailed
  | applyNext
  | restart

variable {cfg : SlotConfig} {node : Node}

def Watching.step (H : HashFn) (cfg : SlotConfig) (node : Node)
    (s : Watching) : WatchStep → Except Abort Watching
  | .call c => do
      let world ← s.world.exec H c
      return { s with
        world
        events := s.events ++ slotBoundEvent s.world.slots.registry
          world.slots.registry c }
  | .poll =>
      let page := newest s.events
      return { s with
        watcher := s.watcher.readPage cfg (page.map node.parsedJson)
        read := s.read ++ page }
  | .pollFailed => return s
  | .applyNext =>
      return { s with
        watcher := s.watcher.applyNext
        applied := s.applied ++ s.watcher.queue.take 1 }
  | .restart =>
      return { s with watcher := .start cfg, read := [], applied := [] }

def watching (H : HashFn) (publisher : Address) (cfg : SlotConfig)
    (node : Node) : Machine Abort Watching WatchStep where
  init := ⟨World.init publisher, [], .start cfg, [], []⟩
  step := Watching.step H cfg node

/-- The event of the slot bound last. -/
def Latest (events : List SlotBoundToRound) (e : SlotBoundToRound) : Prop :=
  e ∈ events ∧ ∀ e' ∈ events, e'.place ≤ e.place

/-- What a poll would find new, in the order of its page. -/
def Watching.unread (node : Node) (s : Watching) : List SlotBoundToRound :=
  (newest s.events).filter (s.watcher.unseen node)

/-- Of the events the first has a configuration and no other has. -/
def OnlyFirst (config : SlotBoundToRound → Option HashShareMintConfig) :
    List SlotBoundToRound → Prop
  | [] => True
  | e :: rest => (config e).isSome ∧ ∀ e' ∈ rest, config e' = none

instance (config : SlotBoundToRound → Option HashShareMintConfig) :
    DecidablePred (OnlyFirst config)
  | [] => inferInstanceAs (Decidable True)
  | _ :: _ => inferInstanceAs (Decidable (_ ∧ _))

/-- A poll finds nothing new, or of what is new only the first, the slot
bound last, has a configuration. -/
def PollFits (cfg : SlotConfig) (node : Node) (s : Watching) :
    WatchStep → Prop
  | .poll => OnlyFirst (cfg.configOf node) (s.unread node)
  | _ => True

instance (s : Watching) : DecidablePred (PollFits cfg node s)
  | .poll => inferInstanceAs (Decidable (OnlyFirst _ _))
  | .call _ | .pollFailed | .applyNext | .restart =>
      inferInstanceAs (Decidable True)

/-- The configurations are those of `es`, some of the slots read, in the
order they were bound and up to the last. -/
structure SentFor (cfg : SlotConfig) (node : Node)
    (read es : List SlotBoundToRound) (configs : List HashShareMintConfig) :
    Prop where
  configs_eq : es.map (cfg.configOf node) = configs.map some
  sorted : es.Pairwise fun e e' => e.place < e'.place
  mem_read : ∀ e ∈ es, e ∈ read
  last : ∀ l, Latest read l → es.getLast? = some l

/-- What has been read, and what came of it. -/
structure Follows (cfg : SlotConfig) (node : Node) (s : Watching) :
    Prop where
  read_sub : ∀ e ∈ s.read, e ∈ s.events
  seen : ∀ t, t ∈ s.watcher.seen ↔ ∃ e ∈ s.read, node.address e.capId = t
  /-- A page below the latest event read, all is read. -/
  window : ∀ l, Latest s.read l → ∀ e ∈ s.events, e.place ≤ l.place →
    l.place < e.place + 50 → e ∈ s.read
  sent : ∃ es, SentFor cfg node s.read es (s.applied ++ s.watcher.queue)
  active : s.watcher.active = s.applied.getLast?.or cfg.initial

variable {s s' : Watching}

-- ============================================================= one step

theorem Latest.of_iff {events events' : List SlotBoundToRound}
    {e : SlotBoundToRound} (h : Latest events e)
    (hiff : ∀ e, e ∈ events' ↔ e ∈ events) : Latest events' e :=
  ⟨(hiff e).mpr h.1, fun e' he' => h.2 e' ((hiff e').mp he')⟩

instance (events : List SlotBoundToRound) : DecidablePred (Latest events) :=
  fun _ => inferInstanceAs (Decidable (_ ∧ _))

theorem exists_latest {events : List SlotBoundToRound}
    {e : SlotBoundToRound} (he : e ∈ events) : ∃ l, Latest events l := by
  cases hmax : events.argmax SlotBoundToRound.place with
  | none =>
      rw [List.argmax_eq_none.mp hmax] at he
      cases he
  | some l =>
      exact ⟨l, List.argmax_mem hmax,
        fun e' he' => List.le_of_mem_argmax he' hmax⟩

theorem Follows.start {world : World} (events : List SlotBoundToRound) :
    Follows cfg node ⟨world, events, .start cfg, [], []⟩ where
  read_sub _ he := by cases he
  seen t := by
    show t ∈ [] ↔ _
    simp
  window l hl := by cases hl.1
  sent := by
    refine ⟨[], rfl, List.Pairwise.nil, ?_, ?_⟩
    · intro e he
      cases he
    · intro l hl
      cases hl.1
  active := rfl

/-- What is bound later is above all that is read. -/
theorem Follows.bound (h : Follows cfg node s) {world : World}
    {later : List SlotBoundToRound}
    (hlater : ∀ e ∈ later, ∀ e' ∈ s.events, e'.place < e.place) :
    Follows cfg node { s with world, events := s.events ++ later } where
  read_sub e he := List.mem_append_left _ (h.read_sub e he)
  seen := h.seen
  window l hl e he hle hlt := by
    rcases List.mem_append.mp he with he | he
    · exact h.window l hl e he hle hlt
    · have habove := hlater e he l (h.read_sub l hl.1)
      omega
  sent := h.sent
  active := h.active

theorem Follows.applyNext (h : Follows cfg node s) :
    Follows cfg node { s with
      watcher := s.watcher.applyNext
      applied := s.applied ++ s.watcher.queue.take 1 } := by
  obtain ⟨world, events, ⟨seen, queue, active⟩, read, applied⟩ := s
  cases queue with
  | nil =>
      simp only [Watcher.applyNext, List.take_nil, List.append_nil]
      exact h
  | cons c queue =>
      constructor
      case read_sub => exact h.read_sub
      case seen => exact h.seen
      case window => exact h.window
      case sent =>
        -- what is taken from the channel is added to what was applied
        have hsame : (applied ++ [c]) ++ queue = applied ++ c :: queue := by
          rw [List.append_assoc, List.singleton_append]
        show ∃ es, SentFor cfg node read es ((applied ++ [c]) ++ queue)
        rw [hsame]
        exact h.sent
      case active =>
        show some c = (applied ++ [c]).getLast?.or cfg.initial
        rw [List.getLast?_concat, Option.some_or]

/-- What a page has that was not read is later than all that was. -/
theorem Follows.unread_later (h : Follows cfg node s) {l : SlotBoundToRound}
    (he : Emitted reg s.events) (hl : Latest s.read l) :
    ∀ e ∈ newest s.events, e ∉ s.read → l.place < e.place := by
  intro e hpage hnew
  obtain ⟨hmem, hplace⟩ := (he.mem_newest e).mp hpage
  have hwithin := he.place_lt (h.read_sub l hl.1)
  by_contra hle
  exact hnew (h.window l hl e hmem (by omega) (by omega))

theorem Follows.mem_unread (h : Follows cfg node s) {log : SlotLog}
    (he : Emitted reg s.events) (hledger : SlotLedger reg log)
    {e : SlotBoundToRound} :
    e ∈ s.unread node ↔ e ∈ newest s.events ∧ e ∉ s.read := by
  rw [Watching.unread, List.mem_filter]
  refine and_congr_right fun hpage => ?_
  have hmem := ((he.mem_newest e).mp hpage).1
  simp only [Watcher.unseen, Bool.not_eq_true', List.contains_eq_mem,
    decide_eq_false_iff_not, h.seen, not_exists, not_and]
  constructor
  · intro hnone hread
    exact hnone e hread rfl
  · intro hread e' he' haddr
    -- the cap is that event's alone
    have hsame := he.eq_of_capId hledger (h.read_sub e' he') hmem
      (node.address_inj haddr)
    exact hread (hsame ▸ he')

/-- After a poll the latest event read is the latest there is. -/
theorem Follows.latest_poll (h : Follows cfg node s)
    (he : Emitted reg s.events) {l : SlotBoundToRound}
    (hl : Latest (s.read ++ newest s.events) l) :
    l.place + 1 = s.events.length := by
  have hsub : l ∈ s.events := by
    rcases List.mem_append.mp hl.1 with hread | hpage
    · exact h.read_sub l hread
    · exact ((he.mem_newest l).mp hpage).1
  have hlt := he.place_lt hsub
  -- the place before the end is an event's, and that event is on the page
  have hlast : s.events.length - 1
      ∈ s.events.map SlotBoundToRound.place := by
    rw [he.places, List.mem_range]
    omega
  obtain ⟨e, hmem, hplace⟩ := List.mem_map.mp hlast
  have hpage : e ∈ newest s.events :=
    (he.mem_newest e).mpr ⟨hmem, by omega⟩
  have hle := hl.2 e (List.mem_append_right _ hpage)
  omega

/-- Nothing more is read. -/
theorem SentFor.of_iff {read read' es : List SlotBoundToRound}
    {configs : List HashShareMintConfig}
    (h : SentFor cfg node read es configs)
    (hiff : ∀ e, e ∈ read' ↔ e ∈ read) :
    SentFor cfg node read' es configs where
  configs_eq := h.configs_eq
  sorted := h.sorted
  mem_read e he := (hiff e).mpr (h.mem_read e he)
  last l hl := h.last l (hl.of_iff fun e => (hiff e).symm)

/-- A slot bound after all that were read is sent. -/
theorem SentFor.snoc {read read' es : List SlotBoundToRound}
    {configs : List HashShareMintConfig} {e : SlotBoundToRound}
    {c : HashShareMintConfig} (h : SentFor cfg node read es configs)
    (hc : cfg.configOf node e = some c) (hsub : ∀ e ∈ read, e ∈ read')
    (hmem : e ∈ read') (habove : ∀ e' ∈ read, e'.place < e.place)
    (hlatest : ∀ l, Latest read' l → l = e) :
    SentFor cfg node read' (es ++ [e]) (configs ++ [c]) where
  configs_eq := by
    rw [List.map_append, List.map_append, h.configs_eq, List.map_singleton,
      hc, List.map_singleton]
  sorted := by
    refine List.pairwise_append.mpr
      ⟨h.sorted, List.pairwise_singleton _ _, ?_⟩
    intro e' he' e'' he''
    rw [List.mem_singleton.mp he'']
    exact habove e' (h.mem_read e' he')
  mem_read e' he' := by
    rcases List.mem_append.mp he' with he' | he'
    · exact hsub e' (h.mem_read e' he')
    · rw [List.mem_singleton.mp he']
      exact hmem
  last l hl := by
    rw [hlatest l hl]
    exact List.getLast?_concat

/-- The first of what is new is on the page, above all that was read, and
the latest when the page is read. -/
theorem Follows.unread_head (h : Follows cfg node s) {log : SlotLog}
    (he : Emitted reg s.events) (hledger : SlotLedger reg log)
    {e : SlotBoundToRound} {rest : List SlotBoundToRound}
    (hunread : s.unread node = e :: rest) :
    e ∈ newest s.events ∧ (∀ e' ∈ s.read, e'.place < e.place)
      ∧ ∀ l, Latest (s.read ++ newest s.events) l → l = e := by
  have hin : e ∈ s.unread node := by
    rw [hunread]
    exact List.mem_cons_self ..
  obtain ⟨hnew, hunseen⟩ := (h.mem_unread he hledger).mp hin
  have habove : ∀ e' ∈ s.read, e'.place < e.place := by
    intro e' he'
    obtain ⟨l, hl⟩ := exists_latest he'
    exact Nat.lt_of_le_of_lt (hl.2 e' he')
      (h.unread_later he hl e hnew hunseen)
  -- a page is in descending order, and so is what is new of it
  have hsort : (e :: rest).Pairwise fun e e' => e'.place < e.place := by
    rw [← hunread]
    exact he.newest_sorted.filter (s.watcher.unseen node)
  refine ⟨hnew, habove, fun l hl => ?_⟩
  have hle := hl.2 e (List.mem_append_right _ hnew)
  by_cases hmem : l ∈ s.read
  · have hlt := habove l hmem
    omega
  · have hlpage : l ∈ newest s.events :=
      (List.mem_append.mp hl.1).resolve_left hmem
    have hlin := (h.mem_unread he hledger).mpr ⟨hlpage, hmem⟩
    rw [hunread] at hlin
    rcases List.mem_cons.mp hlin with rfl | hrest
    · rfl
    · have hlt := List.rel_of_pairwise_cons hsort hrest
      omega

theorem Follows.poll (h : Follows cfg node s) {log : SlotLog}
    (he : Emitted reg s.events) (hledger : SlotLedger reg log)
    (hfits : PollFits cfg node s .poll) :
    Follows cfg node { s with
      watcher := s.watcher.readPage cfg
        ((newest s.events).map node.parsedJson)
      read := s.read ++ newest s.events } := by
  obtain ⟨hseen, hqueue, hactive⟩ :=
    Watcher.readPage_events cfg (he.newest_caps hledger) s.watcher
  constructor
  case read_sub =>
    intro e hmem
    rcases List.mem_append.mp hmem with hmem | hmem
    · exact h.read_sub e hmem
    · exact ((he.mem_newest e).mp hmem).1
  case seen =>
    intro t
    dsimp only
    rw [hseen, h.seen]
    simp only [List.mem_append, or_and_right, exists_or]
  case window =>
    intro l hl e hmem hle hlt
    have hlast := h.latest_poll he hl
    exact List.mem_append_right _
      ((he.mem_newest e).mpr ⟨hmem, by omega⟩)
  case active => exact hactive.trans h.active
  case sent =>
    obtain ⟨es, hes⟩ := h.sent
    dsimp only
    rw [hqueue, ← List.append_assoc]
    show ∃ es, SentFor cfg node (s.read ++ newest s.events) es
      (s.applied ++ s.watcher.queue
        ++ (s.unread node).filterMap (cfg.configOf node))
    have hfits : OnlyFirst (cfg.configOf node) (s.unread node) := hfits
    cases hunread : s.unread node with
    | nil =>
        -- the page was read before
        rw [List.filterMap_nil, List.append_nil]
        refine ⟨es, hes.of_iff fun e => ?_⟩
        rw [List.mem_append]
        refine ⟨fun hmem => hmem.elim id fun hpage => ?_, .inl⟩
        by_contra hnew
        have hin := (h.mem_unread he hledger).mpr ⟨hpage, hnew⟩
        rw [hunread] at hin
        cases hin
    | cons e rest =>
        rw [hunread] at hfits
        obtain ⟨hconfig, hrest⟩ := hfits
        obtain ⟨c, hc⟩ := Option.isSome_iff_exists.mp hconfig
        have hsent : (e :: rest).filterMap (cfg.configOf node) = [c] := by
          rw [List.filterMap_cons_some hc]
          congr 1
          exact List.filterMap_eq_nil_iff.mpr hrest
        obtain ⟨hnew, habove, hlatest⟩ := h.unread_head he hledger hunread
        rw [hsent]
        exact ⟨es ++ [e], hes.snoc hc
          (fun e => List.mem_append_left _) (List.mem_append_right _ hnew)
          habove hlatest⟩

-- ============================================================== every run

theorem watched {publisher : Address}
    (h : Machine.ReachVia (watching H publisher cfg node)
      (PollFits cfg node) s) :
    Machine.Reach (contract H publisher) s.world
      ∧ Emitted s.world.slots.registry s.events
      ∧ Follows cfg node s := by
  have hinit : Machine.Reach (contract H publisher) (World.init publisher) :=
    .init
  refine Machine.ReachVia.invariant (I := fun s =>
      Machine.Reach (contract H publisher) s.world
        ∧ Emitted s.world.slots.registry s.events ∧ Follows cfg node s)
    ⟨hinit, .init publisher, .start []⟩ ?_ h
  rintro s i s' ⟨hreach, hemitted, hfollows⟩ hfits hstep
  cases i with
  | call c =>
      simp only [watching, Watching.step, bind_eq_ok, pure_eq_ok] at hstep
      obtain ⟨world, hexec, rfl⟩ := hstep
      have hemitted' := hemitted.exec hexec
      refine ⟨.step c hreach trivial hexec, hemitted',
        hfollows.bound fun e he e' he' => ?_⟩
      exact (List.pairwise_append.mp hemitted'.sorted).2.2 e' he' e he
  | poll =>
      simp only [watching, Watching.step, pure_eq_ok] at hstep
      subst hstep
      obtain ⟨log, hledger⟩ := exists_slotLedger hreach
      exact ⟨hreach, hemitted, hfollows.poll hemitted hledger hfits⟩
  | pollFailed =>
      simp only [watching, Watching.step, pure_eq_ok] at hstep
      subst hstep
      exact ⟨hreach, hemitted, hfollows⟩
  | applyNext =>
      simp only [watching, Watching.step, pure_eq_ok] at hstep
      subst hstep
      exact ⟨hreach, hemitted, hfollows.applyNext⟩
  | restart =>
      simp only [watching, Watching.step, pure_eq_ok] at hstep
      subst hstep
      exact ⟨hreach, hemitted, .start s.events⟩

/-- In every run whose polls each find at most one slot to mint for, the
newest of what they find: with the channel empty the flusher mints for the
slot bound last among the events read, and the configurations it has come
to since the start are those of slots each bound after the one before. -/
theorem active_slot_latest {publisher : Address}
    (h : Machine.ReachVia (watching H publisher cfg node)
      (PollFits cfg node) s) :
    (s.watcher.queue = [] → ∀ e, Latest s.read e →
        ∃ c, cfg.configOf node e = some c ∧ s.watcher.active = some c)
      ∧ s.watcher.active = s.applied.getLast?.or cfg.initial
      ∧ ∃ es : List SlotBoundToRound,
          es.map (cfg.configOf node) = s.applied.map some
          ∧ (∀ e ∈ es, e ∈ s.read)
          ∧ es.Pairwise fun e e' => e.place < e'.place := by
  obtain ⟨-, -, hfollows⟩ := watched h
  obtain ⟨es, hmap, hsorted, hread, hlast⟩ := hfollows.sent
  refine ⟨?_, hfollows.active, es.take s.applied.length, ?_, ?_, ?_⟩
  · intro hempty e he
    rw [hempty, List.append_nil] at hmap
    have hconfig : some (cfg.configOf node e)
        = s.applied.getLast?.map some := by
      rw [← List.getLast?_map, ← hmap, List.getLast?_map, hlast e he]
      rfl
    cases happlied : s.applied.getLast? with
    | none =>
        rw [happlied] at hconfig
        cases hconfig
    | some c =>
        rw [happlied] at hconfig
        refine ⟨c, Option.some.inj hconfig, ?_⟩
        rw [hfollows.active, happlied]
        rfl
  · rw [List.map_take, hmap, List.map_append]
    exact List.take_left' (List.length_map some)
  · exact fun e he => hread e (List.mem_of_mem_take he)
  · exact hsorted.sublist (List.take_sublist _ _)

-- ========================================================== a full node

/-- `0x` and 64 digits. -/
def addressText (id : ID) : Text := '0' :: 'x' :: Hex.padded 64 id

def addressOf : Text → Option ID
  | '0' :: 'x' :: ds => if ds = [] then none else Hex.digits 0 ds
  | _ => none

theorem addressText_inj {a b : ID} (h : addressText a = addressText b) :
    a = b := by
  have hdigits : ∀ n, Hex.digits 0 (Hex.padded 64 n) = some n := by
    intro n
    rw [Hex.padded, Hex.digits_zeros, Hex.digits_toDigits]
  have hsame : Hex.padded 64 a = Hex.padded 64 b := by
    injection h with _ h
    injection h
  rw [← Option.some.injEq, ← hdigits a, ← hdigits b, hsame]

/-- A node that writes bytes as an array. -/
def arrayNode : Node where
  address := addressText
  address_inj := addressText_inj
  byteVector bytes :=
    .array (bytes.map fun b => .number (some (b.setWidth 64)))

/-- A sidecar started without a coin to mint. -/
def slotConfig : SlotConfig where
  packageId := "0x51".toList
  registryId := "0x7".toList
  initial := none
  objectId := addressOf
  typeTag := some

/-- `HS_000` and `HS_001`. -/
def label000 : Bytes := [72, 83, 95, 48, 48, 48]
def label001 : Bytes := [72, 83, 95, 48, 48, 49]

def bindTwo : List WatchStep :=
  [.call (.slot (.registerSlot 10 label000)),
   .call (.slot (.registerSlot 11 label001)),
   .call (.slot (.bindSlotToRound 0)),
   .call (.slot (.bindSlotToRound 1))]

/-- Polled after each binding, the sidecar mints for the second slot. -/
def polledEach : List WatchStep :=
  bindTwo.take 3 ++ [.poll, .applyNext, .pollFailed] ++ bindTwo.drop 3
    ++ [.poll, .applyNext, .poll]

theorem active_slot_latest_polledEach :
    ∃ s, Machine.ReachVia (watching sha256 0 slotConfig arrayNode)
        (PollFits slotConfig arrayNode) s
      ∧ s.watcher.queue = []
      ∧ Latest s.read ⟨1, 11, label001, 1⟩
      ∧ ∃ c, slotConfig.configOf arrayNode ⟨1, 11, label001, 1⟩ = some c
        ∧ s.watcher.active = some c := by
  have hrun : (watching sha256 0 slotConfig arrayNode).endsFrom
      (fun s i => decide (PollFits slotConfig arrayNode s i))
      (fun s => decide (s.watcher.queue = []
        ∧ Latest s.read ⟨1, 11, label001, 1⟩)) polledEach
      (watching sha256 0 slotConfig arrayNode).init = true := by
    decide +kernel
  obtain ⟨s, hs, hcheck⟩ := Machine.reachVia_of_endsFrom
    (fun _ _ hok => of_decide_eq_true hok) .init hrun
  obtain ⟨hempty, hlatest⟩ := of_decide_eq_true hcheck
  exact ⟨s, hs, hempty, hlatest,
    (active_slot_latest hs).1 hempty _ hlatest⟩

/-- Both slots bound before the first poll: the flusher comes to the
second slot and then goes back to the first. -/
theorem older_slot_active :
    ∃ s, Machine.Reach (watching sha256 0 slotConfig arrayNode) s
      ∧ s.watcher.queue = []
      ∧ Latest s.read ⟨1, 11, label001, 1⟩
      ∧ s.applied = [⟨7, 11, "0x51::hs_001::HS_001".toList⟩,
          ⟨7, 10, "0x51::hs_000::HS_000".toList⟩]
      ∧ slotConfig.configOf arrayNode ⟨1, 11, label001, 1⟩
        = some ⟨7, 11, "0x51::hs_001::HS_001".toList⟩
      ∧ s.watcher.active = some ⟨7, 10, "0x51::hs_000::HS_000".toList⟩ := by
  have hrun : (watching sha256 0 slotConfig arrayNode).endsIn
      (bindTwo ++ [.poll, .applyNext, .applyNext])
      (fun s => decide (s.watcher.queue = []
        ∧ Latest s.read ⟨1, 11, label001, 1⟩
        ∧ s.applied = [⟨7, 11, "0x51::hs_001::HS_001".toList⟩,
          ⟨7, 10, "0x51::hs_000::HS_000".toList⟩]
        ∧ slotConfig.configOf arrayNode ⟨1, 11, label001, 1⟩
          = some ⟨7, 11, "0x51::hs_001::HS_001".toList⟩
        ∧ s.watcher.active
          = some ⟨7, 10, "0x51::hs_000::HS_000".toList⟩)) = true := by
    decide +kernel
  obtain ⟨s, hs, hcheck⟩ := Machine.reach_of_endsIn hrun
  exact ⟨s, hs, of_decide_eq_true hcheck⟩

end M1n3Protocol.Sidecar
