/-
How the stratum server's difficulty moves, lock by lock: the loop that
follows the pool's minimum, the loop that follows the share rate, the
broadcast both end in, and the connections.

# What is atomic

A step is what happens under the locks held at once, or one write to a
socket. A value read under a lock and used later is kept by whoever read
it, so that others can move in between. What f64 arithmetic makes of the
share rate, and the clock, come with the event.

# What a miner was told

A socket belongs to its connection, so an entry of the map also carries
the last number written to its socket. What is still to be written to an
earlier connection of the same address goes nowhere.

# How a connection ends

An idle or closed connection takes its entry along. A handler that fails
returns before the cleanup, and its entry stays.
-/
import M1n3Protocol.Lib.Machine
import M1n3Protocol.Stratum.Server

namespace M1n3Protocol.Vardiff

open Checked

-- =============================================================== the state

/-- `d as f64`: the nearest number of 53 bits, of two the even one. -/
def asF64 (d : U64) : Nat :=
  let n := d.toNat
  if n < 2 ^ 53 then n
  else
    let unit := 2 ^ (Nat.log2 n - 52)
    let q := n / unit
    let r := n % unit
    if unit < 2 * r ∨ (unit = 2 * r ∧ q % 2 = 1) then (q + 1) * unit
    else q * unit

structure Miner where
  difficulty : U64
  /-- By the last `mining.set_difficulty` written to it. -/
  told : Option Nat
deriving DecidableEq

/-- Messages still to be written: to whom, and the number. -/
abbrev Sends := List (SocketAddr × Nat)

inductive Loop
  | sync
  | vardiff
deriving DecidableEq

/-- A loop's `set_difficulty_all_miners`. -/
inductive Push
  | idle
  /-- Before the write lock. -/
  | due (newFloor : U64)
  | sending (newFloor : U64) (sendList : Sends)
deriving DecidableEq

/-- The floor a loop is about to push. -/
def Push.dueFloor : Push → Option U64
  | .due newFloor => some newFloor
  | _ => none

/-- A broadcast whose messages are being written. -/
def Push.broadcast : Push → Option (U64 × Sends)
  | .sending newFloor sendList => some (newFloor, sendList)
  | _ => none

/-- Where `global_vardiff_loop` is before it pushes. -/
inductive Tuning
  | waiting
  | drought
  | rate
  /-- A drought, with the difficulty read. -/
  | halving (currentDiff : U64)
  /-- A rate out of the dead zone, with the product computed. -/
  | scaling (adjusted : U64)
deriving DecidableEq

/-- Where a connection's `handle_miner` is. -/
inductive Handler
  /-- With the difficulty read for the entry it is about to insert. -/
  | opening (initialDiff : U64)
  | reading
  /-- A share passed, the floor not read yet. -/
  | accepted
  | updating (globalFloor : U64)
  /-- About to answer, and to tell a difficulty if there is one. -/
  | writing (newDifficulty : Option U64)
deriving DecidableEq

structure State where
  globalDifficulty : U64
  lastPoolMinDifficulty : U64
  miners : List (SocketAddr × Miner)
  tuning : Tuning
  pushes : Loop → Push
  handlers : SocketAddr → Option Handler
  /-- Of the notifications of new jobs, which repeat the difficulty. -/
  notices : Sends

def State.init (initialDifficulty : U64) : State :=
  { globalDifficulty := initialDifficulty
    lastPoolMinDifficulty := initialDifficulty
    miners := []
    tuning := .waiting
    pushes := fun _ => .idle
    handlers := fun _ => none
    notices := [] }

def State.setPush (s : State) (loop : Loop) (p : Push) : State :=
  { s with pushes := fun l => if l = loop then p else s.pushes l }

def State.setHandler (s : State) (who : SocketAddr) (h : Option Handler) :
    State :=
  { s with handlers := fun a => if a = who then h else s.handlers a }

def State.broadcasts (s : State) : List (U64 × Sends) :=
  [Loop.sync, .vardiff].filterMap fun loop => (s.pushes loop).broadcast

/-- The difficulty `who` is about to be entered with. -/
def State.opening (s : State) (who : SocketAddr) : Option U64 :=
  match s.handlers who with
  | some (.opening initialDiff) => some initialDiff
  | _ => none

/-- The floor `who` is about to be given. -/
def State.updating (s : State) (who : SocketAddr) : Option U64 :=
  match s.handlers who with
  | some (.updating globalFloor) => some globalFloor
  | _ => none

/-- The difficulty `who` is about to be told. -/
def State.writing (s : State) (who : SocketAddr) : Option U64 :=
  match s.handlers who with
  | some (.writing newDifficulty) => newDifficulty
  | _ => none

def State.miner (s : State) (who : SocketAddr) : Option Miner :=
  (s.miners.find? fun p => p.1 = who).map (·.2)

def State.modifyMiner (s : State) (who : SocketAddr) (f : Miner → Miner) :
    State :=
  { s with miners := s.miners.map fun p =>
      if p.1 = who then (p.1, f p.2) else p }

/-- A number is written to the socket of `who`. -/
def State.tell (s : State) (who : SocketAddr) (n : Nat) : State :=
  s.modifyMiner who fun m => { m with told := some n }

/-- The value, but no less than `bound`. -/
def atLeast (bound d : U64) : U64 := if d < bound then bound else d

-- ==================================================== difficulty_sync_loop

/-- The server's difficulty once the pool's minimum is `poolMin`. The
product is taken in 128 bits, and the quotient cast back to 64. -/
def syncedDifficulty (initialDifficulty globalDiff poolMin lastMin : U64) :
    U64 :=
  if globalDiff < poolMin then poolMin
  else if poolMin < lastMin then
    atLeast initialDifficulty (BitVec.ofNat 64
      (globalDiff.toNat * poolMin.toNat / lastMin.toNat))
  else globalDiff

/-- One answer of the chain, under both locks. -/
def State.poolState (initialDifficulty : U64) (s : State) (poolMin : U64) :
    Except Unit State :=
  if s.pushes .sync = .idle then
    if poolMin ≠ s.lastPoolMinDifficulty then
      let diffToPush := syncedDifficulty initialDifficulty
        s.globalDifficulty poolMin s.lastPoolMinDifficulty
      .ok ({ s with
        globalDifficulty := diffToPush
        lastPoolMinDifficulty := poolMin }.setPush .sync (.due diffToPush))
    else .ok s
  else .error ()

-- ===================================================== global_vardiff_loop

/-- The window is counted, and in a drought the miners looked for. -/
def State.tick (s : State) (sharesInWindow droughtSecs : Nat) :
    Except Unit State :=
  if s.tuning = .waiting ∧ s.pushes .vardiff = .idle then
    if sharesInWindow < 4 then
      if s.miners ≠ [] ∧ 120 < droughtSecs then
        .ok { s with tuning := .drought }
      else .ok s
    else .ok { s with tuning := .rate }
  else .error ()

/-- What the loop computed, before its bound. -/
def Tuning.computed : Tuning → Option U64
  | .halving currentDiff => some (currentDiff / 2)
  | .scaling adjusted => some adjusted
  | _ => none

def Tuning.newDiff (initialDifficulty : U64) (tuning : Tuning) : Option U64 :=
  tuning.computed.map (atLeast initialDifficulty)

/-- The difficulty is read. `adjusted` is the product with the clamped
ratio, nothing in the dead zone. -/
def State.readGlobal (initialDifficulty : U64) (s : State)
    (adjusted : Option U64) : Except Unit State :=
  let currentDiff := s.globalDifficulty
  match s.tuning with
  | .drought =>
      if atLeast initialDifficulty (currentDiff / 2) < currentDiff then
        .ok { s with tuning := .halving currentDiff }
      else .ok { s with tuning := .waiting }
  | .rate =>
      match adjusted with
      | some adjusted =>
          if atLeast initialDifficulty adjusted ≠ currentDiff then
            .ok { s with tuning := .scaling adjusted }
          else .ok { s with tuning := .waiting }
      | none => .ok { s with tuning := .waiting }
  | _ => .error ()

def State.writeGlobal (initialDifficulty : U64) (s : State) :
    Except Unit State :=
  match s.tuning.newDiff initialDifficulty with
  | some newDiff =>
      .ok ({ s with
        globalDifficulty := newDiff
        tuning := .waiting }.setPush .vardiff (.due newDiff))
  | none => .error ()

-- =============================================== set_difficulty_all_miners

def safeDiff (d : U64) : U64 := if d < 1 then 1 else d

/-- A miner's difficulty after a floor: raised to it, never lowered. -/
def raised (newFloor d : U64) : U64 :=
  let safeFloor := safeDiff newFloor
  if d < safeFloor then safeFloor else d

/-- Phase 1: the entries are raised and the messages built. -/
def State.collect (s : State) (loop : Loop) : Except Unit State :=
  match s.pushes loop with
  | .due newFloor =>
      let miners := s.miners.map fun p =>
        (p.1, { p.2 with difficulty := raised newFloor p.2.difficulty })
      let sendList := miners.map fun p => (p.1, asF64 p.2.difficulty)
      .ok ({ s with miners := miners }.setPush loop
        (.sending newFloor sendList))
  | _ => .error ()

/-- Phase 2: one of the writes ends, well or not. -/
def State.sent (s : State) (loop : Loop) (who : SocketAddr) (n : Nat)
    (ok : Bool) : Except Unit State :=
  match s.pushes loop with
  | .sending newFloor sendList =>
      if (who, n) ∈ sendList then
        .ok ((if ok then s.tell who n else s).setPush loop
          (.sending newFloor (sendList.erase (who, n))))
      else .error ()
  | _ => .error ()

/-- The last write was joined. -/
def State.pushed (s : State) (loop : Loop) : Except Unit State :=
  match s.pushes loop with
  | .sending _ [] => .ok (s.setPush loop .idle)
  | _ => .error ()

-- ======================================================== notify_all_miners

def State.notify (s : State) : State :=
  { s with notices := s.notices ++ s.miners.map fun p =>
      (p.1, asF64 (safeDiff p.2.difficulty)) }

def State.notified (s : State) (who : SocketAddr) (n : Nat) (ok : Bool) :
    Except Unit State :=
  if (who, n) ∈ s.notices then
    .ok { if ok then s.tell who n else s with
      notices := s.notices.erase (who, n) }
  else .error ()

-- ============================================================ handle_miner

def State.connect (s : State) (who : SocketAddr) : Except Unit State :=
  match s.handlers who with
  | none => .ok (s.setHandler who (some (.opening s.globalDifficulty)))
  | some _ => .error ()

/-- What is left to write to others than `who`. -/
def Sends.dropTo (sends : Sends) (who : SocketAddr) : Sends :=
  sends.filter fun send => send.1 ≠ who

def Push.dropTo (who : SocketAddr) : Push → Push
  | .sending newFloor sendList => .sending newFloor (Sends.dropTo sendList who)
  | p => p

def State.removeMiner (s : State) (who : SocketAddr) : State :=
  { s with miners := s.miners.filter fun p => p.1 ≠ who }

def State.insert (s : State) (who : SocketAddr) : Except Unit State :=
  match s.opening who with
  | some initialDiff =>
      .ok ({ s.removeMiner who with
        miners := (who, { difficulty := initialDiff, told := none })
          :: (s.removeMiner who).miners
        pushes := fun loop => (s.pushes loop).dropTo who
        notices := Sends.dropTo s.notices who }.setHandler who (some .reading))
  | none => .error ()

/-- A share of this difficulty is judged by the difficulty enforced. One
that fails an earlier check is answered as one below it. -/
def State.submit (s : State) (who : SocketAddr) (difficulty : U64) :
    Except Unit State :=
  if s.handlers who = some .reading then
    match s.miner who with
    | some m =>
        if difficulty < m.difficulty then
          .ok (s.setHandler who (some (.writing none)))
        else .ok (s.setHandler who (some .accepted))
    | none => .ok (s.setHandler who (some (.writing none)))
  else .error ()

def State.readFloor (s : State) (who : SocketAddr) : Except Unit State :=
  if s.handlers who = some .accepted then
    .ok (s.setHandler who (some (.updating s.globalDifficulty)))
  else .error ()

/-- The update of an accepted share. -/
def State.update (s : State) (who : SocketAddr) : Except Unit State :=
  match s.updating who with
  | some globalFloor =>
      match s.miner who with
      | some m =>
          if m.difficulty ≠ globalFloor then
            .ok ((s.modifyMiner who fun m =>
              { m with difficulty := globalFloor }).setHandler who
                (some (.writing (some globalFloor))))
          else .ok (s.setHandler who (some (.writing none)))
      | none => .ok (s.setHandler who (some (.writing none)))
  | none => .error ()

/-- After the answer to `mining.subscribe`. -/
def State.subscribe (s : State) (who : SocketAddr) : Except Unit State :=
  if s.handlers who = some .reading then
    let currentDiff := ((s.miner who).map (·.difficulty)).getD
      s.globalDifficulty
    .ok (s.setHandler who (some (.writing (some currentDiff))))
  else .error ()

def State.write (s : State) (who : SocketAddr) : Except Unit State :=
  match s.handlers who with
  | some (.writing (some newDiff)) =>
      .ok ((s.tell who (asF64 (safeDiff newDiff))).setHandler who
        (some .reading))
  | some (.writing none) => .ok (s.setHandler who (some .reading))
  | _ => .error ()

/-- The connection is closed or idle for too long. -/
def State.leave (s : State) (who : SocketAddr) : Except Unit State :=
  if s.handlers who = some .reading then
    .ok ((s.removeMiner who).setHandler who none)
  else .error ()

/-- A read or a write fails. -/
def State.fail (s : State) (who : SocketAddr) : Except Unit State :=
  match s.handlers who with
  | some .reading => .ok (s.setHandler who none)
  | some (.writing _) => .ok (s.setHandler who none)
  | _ => .error ()

-- ============================================================= the machine

inductive Event
  | poolState (poolMin : U64)
  | tick (sharesInWindow droughtSecs : Nat)
  | readGlobal (adjusted : Option U64)
  | writeGlobal
  | collect (loop : Loop)
  | sent (loop : Loop) (who : SocketAddr) (n : Nat) (ok : Bool)
  | pushed (loop : Loop)
  | notify
  | notified (who : SocketAddr) (n : Nat) (ok : Bool)
  | connect (who : SocketAddr)
  | insert (who : SocketAddr)
  | submit (who : SocketAddr) (difficulty : U64)
  | readFloor (who : SocketAddr)
  | update (who : SocketAddr)
  | subscribe (who : SocketAddr)
  | write (who : SocketAddr)
  | leave (who : SocketAddr)
  | fail (who : SocketAddr)

def step (initialDifficulty : U64) (s : State) : Event → Except Unit State
  | .poolState poolMin => s.poolState initialDifficulty poolMin
  | .tick sharesInWindow droughtSecs => s.tick sharesInWindow droughtSecs
  | .readGlobal adjusted => s.readGlobal initialDifficulty adjusted
  | .writeGlobal => s.writeGlobal initialDifficulty
  | .collect loop => s.collect loop
  | .sent loop who n ok => s.sent loop who n ok
  | .pushed loop => s.pushed loop
  | .notify => .ok s.notify
  | .notified who n ok => s.notified who n ok
  | .connect who => s.connect who
  | .insert who => s.insert who
  | .submit who difficulty => s.submit who difficulty
  | .readFloor who => s.readFloor who
  | .update who => s.update who
  | .subscribe who => s.subscribe who
  | .write who => s.write who
  | .leave who => s.leave who
  | .fail who => s.fail who

/-- The server, with the difficulty it was configured with. -/
def machine (initialDifficulty : U64) : Machine Unit State Event where
  init := .init initialDifficulty
  step := step initialDifficulty

-- ====================================================== what a step does

@[simp] theorem setPush_pushes (s : State) (loop l : Loop) (p : Push) :
    (s.setPush loop p).pushes l = if l = loop then p else s.pushes l := rfl

@[simp] theorem setPush_miners (s : State) (loop : Loop) (p : Push) :
    (s.setPush loop p).miners = s.miners := rfl

@[simp] theorem setHandler_pushes (s : State) (who : SocketAddr)
    (h : Option Handler) : (s.setHandler who h).pushes = s.pushes := rfl

@[simp] theorem setHandler_miners (s : State) (who : SocketAddr)
    (h : Option Handler) : (s.setHandler who h).miners = s.miners := rfl

@[simp] theorem modifyMiner_pushes (s : State) (who : SocketAddr)
    (f : Miner → Miner) : (s.modifyMiner who f).pushes = s.pushes := rfl

@[simp] theorem tell_pushes (s : State) (who : SocketAddr) (n : Nat) :
    (s.tell who n).pushes = s.pushes := rfl

/-- An entry after a change to that of `who`. -/
theorem mem_modifyMiner {s : State} {who : SocketAddr} {f : Miner → Miner}
    {p : SocketAddr × Miner} (hp : p ∈ (s.modifyMiner who f).miners) :
    ∃ q ∈ s.miners, p.1 = q.1
      ∧ ((q.1 = who ∧ p.2 = f q.2) ∨ (q.1 ≠ who ∧ p.2 = q.2)) := by
  obtain ⟨q, hq, rfl⟩ := List.mem_map.mp hp
  refine ⟨q, hq, ?_⟩
  by_cases hwho : q.1 = who
  · rw [if_pos hwho]
    exact ⟨rfl, .inl ⟨hwho, rfl⟩⟩
  · rw [if_neg hwho]
    exact ⟨rfl, .inr ⟨hwho, rfl⟩⟩

/-- The difficulties, the entries and the broadcasts stay. -/
structure Quiet (s s' : State) : Prop where
  globalDifficulty : s'.globalDifficulty = s.globalDifficulty
  lastPoolMin : s'.lastPoolMinDifficulty = s.lastPoolMinDifficulty
  miners : s'.miners = s.miners
  pushes : s'.pushes = s.pushes

theorem quiet_setHandler (s : State) (who : SocketAddr)
    (h : Option Handler) : Quiet s (s.setHandler who h) := ⟨rfl, rfl, rfl, rfl⟩

section Steps

variable {initialDifficulty : U64} {s s' : State} {loop : Loop}
  {who : SocketAddr}

theorem poolState_ok {poolMin : U64}
    (h : s.poolState initialDifficulty poolMin = .ok s') :
    s' = s ∨ s.pushes .sync = .idle
      ∧ s'.lastPoolMinDifficulty = poolMin
      ∧ s'.globalDifficulty = syncedDifficulty initialDifficulty
          s.globalDifficulty poolMin s.lastPoolMinDifficulty
      ∧ s'.miners = s.miners
      ∧ s'.pushes = (s.setPush .sync (.due s'.globalDifficulty)).pushes := by
  unfold State.poolState at h
  split at h
  case isFalse => cases h
  case isTrue hidle =>
      split at h
      · cases h
        exact .inr ⟨hidle, rfl, rfl, rfl, rfl⟩
      · cases h
        exact .inl rfl

theorem tick_quiet {sharesInWindow droughtSecs : Nat}
    (h : s.tick sharesInWindow droughtSecs = .ok s') : Quiet s s' := by
  unfold State.tick at h
  split at h
  case isFalse => cases h
  case isTrue =>
      split at h
      · split at h <;> cases h <;> exact ⟨rfl, rfl, rfl, rfl⟩
      · cases h
        exact ⟨rfl, rfl, rfl, rfl⟩

theorem readGlobal_quiet {adjusted : Option U64}
    (h : s.readGlobal initialDifficulty adjusted = .ok s') : Quiet s s' := by
  simp only [State.readGlobal] at h
  split at h
  · split at h <;> cases h <;> exact ⟨rfl, rfl, rfl, rfl⟩
  · split at h
    · split at h <;> cases h <;> exact ⟨rfl, rfl, rfl, rfl⟩
    · cases h
      exact ⟨rfl, rfl, rfl, rfl⟩
  · cases h

theorem writeGlobal_ok (h : s.writeGlobal initialDifficulty = .ok s') :
    ∃ newDiff, s.tuning.newDiff initialDifficulty = some newDiff
      ∧ s' = { s with
          globalDifficulty := newDiff
          tuning := .waiting }.setPush .vardiff (.due newDiff) := by
  unfold State.writeGlobal at h
  split at h
  case h_1 newDiff hnew =>
      cases h
      exact ⟨newDiff, hnew, rfl⟩
  case h_2 => cases h

theorem collect_ok (h : s.collect loop = .ok s') :
    ∃ newFloor, s.pushes loop = .due newFloor
      ∧ s'.globalDifficulty = s.globalDifficulty
      ∧ s'.lastPoolMinDifficulty = s.lastPoolMinDifficulty
      ∧ s'.miners = s.miners.map (fun p =>
          (p.1, { p.2 with difficulty := raised newFloor p.2.difficulty }))
      ∧ s'.pushes = (s.setPush loop (.sending newFloor
          (s'.miners.map fun p => (p.1, asF64 p.2.difficulty)))).pushes := by
  unfold State.collect at h
  split at h
  case h_1 newFloor hdue =>
      cases h
      exact ⟨newFloor, hdue, rfl, rfl, rfl, rfl⟩
  case h_2 => cases h

theorem sent_ok {n : Nat} {ok : Bool} (h : s.sent loop who n ok = .ok s') :
    ∃ newFloor sendList, s.pushes loop = .sending newFloor sendList
      ∧ (who, n) ∈ sendList
      ∧ s' = (if ok then s.tell who n else s).setPush loop
          (.sending newFloor (sendList.erase (who, n))) := by
  unfold State.sent at h
  split at h
  case h_1 newFloor sendList hsending =>
      split at h
      case isTrue hmem =>
          cases h
          exact ⟨newFloor, sendList, hsending, hmem, rfl⟩
      case isFalse => cases h
  case h_2 => cases h

theorem pushed_ok (h : s.pushed loop = .ok s') :
    ∃ newFloor, s.pushes loop = .sending newFloor []
      ∧ s' = s.setPush loop .idle := by
  unfold State.pushed at h
  split at h
  case h_1 newFloor hsending =>
      cases h
      exact ⟨newFloor, hsending, rfl⟩
  case h_2 => cases h

theorem notified_ok {n : Nat} {ok : Bool} (h : s.notified who n ok = .ok s') :
    Quiet (if ok then s.tell who n else s) s' := by
  unfold State.notified at h
  split at h
  case isFalse => cases h
  case isTrue =>
      cases h
      exact ⟨rfl, rfl, rfl, rfl⟩

theorem connect_quiet (h : s.connect who = .ok s') : Quiet s s' := by
  unfold State.connect at h
  split at h
  · cases h
    exact quiet_setHandler ..
  · cases h

theorem insert_ok (h : s.insert who = .ok s') :
    ∃ initialDiff, s.opening who = some initialDiff
      ∧ s'.globalDifficulty = s.globalDifficulty
      ∧ s'.lastPoolMinDifficulty = s.lastPoolMinDifficulty
      ∧ s'.miners = (who, { difficulty := initialDiff, told := none })
          :: (s.removeMiner who).miners
      ∧ ∀ loop, s'.pushes loop = (s.pushes loop).dropTo who := by
  unfold State.insert at h
  split at h
  case h_1 initialDiff hopening =>
      cases h
      exact ⟨initialDiff, hopening, rfl, rfl, rfl, fun _ => rfl⟩
  case h_2 => cases h

theorem submit_quiet {difficulty : U64} (h : s.submit who difficulty = .ok s') :
    Quiet s s' := by
  unfold State.submit at h
  split at h
  case isFalse => cases h
  case isTrue =>
      split at h
      · split at h <;> cases h <;> exact quiet_setHandler ..
      · cases h
        exact quiet_setHandler ..

/-- What passes is no easier than the difficulty enforced. -/
theorem submit_accepted {difficulty : U64}
    (h : s.submit who difficulty = .ok s')
    (hok : s'.handlers who = some .accepted) :
    ∃ m, s.miner who = some m ∧ m.difficulty ≤ difficulty := by
  unfold State.submit at h
  split at h
  case isFalse => cases h
  case isTrue =>
      split at h
      case h_1 m hm =>
          split at h
          case isTrue =>
              cases h
              simp [State.setHandler] at hok
          case isFalse hlt =>
              exact ⟨m, hm, BitVec.not_lt.mp hlt⟩
      case h_2 =>
          cases h
          simp [State.setHandler] at hok

theorem readFloor_quiet (h : s.readFloor who = .ok s') : Quiet s s' := by
  unfold State.readFloor at h
  split at h
  · cases h
    exact quiet_setHandler ..
  · cases h

theorem update_ok (h : s.update who = .ok s') :
    Quiet s s' ∨ ∃ globalFloor, s.updating who = some globalFloor
      ∧ Quiet (s.modifyMiner who fun m =>
          { m with difficulty := globalFloor }) s' := by
  unfold State.update at h
  split at h
  case h_1 globalFloor hupdating =>
      split at h
      · split at h
        · cases h
          exact .inr ⟨globalFloor, hupdating, quiet_setHandler ..⟩
        · cases h
          exact .inl (quiet_setHandler ..)
      · cases h
        exact .inl (quiet_setHandler ..)
  case h_2 => cases h

theorem subscribe_quiet (h : s.subscribe who = .ok s') : Quiet s s' := by
  unfold State.subscribe at h
  split at h
  · cases h
    exact quiet_setHandler ..
  · cases h

theorem write_ok (h : s.write who = .ok s') :
    Quiet s s' ∨ ∃ newDiff, s.writing who = some newDiff
      ∧ Quiet (s.tell who (asF64 (safeDiff newDiff))) s' := by
  unfold State.write at h
  unfold State.writing
  generalize s.handlers who = handler at h ⊢
  cases handler with
  | none => cases h
  | some handler =>
      cases handler with
      | writing newDifficulty =>
          cases newDifficulty with
          | none =>
              injection h with h
              rw [← h]
              exact .inl (quiet_setHandler _ _ _)
          | some newDiff =>
              refine .inr ⟨newDiff, rfl, ?_⟩
              injection h with h
              rw [← h]
              exact quiet_setHandler _ _ _
      | opening | reading | accepted | updating => cases h

theorem leave_ok (h : s.leave who = .ok s') :
    Quiet (s.removeMiner who) s' := by
  unfold State.leave at h
  split at h
  · cases h
    exact quiet_setHandler ..
  · cases h

theorem fail_quiet (h : s.fail who = .ok s') : Quiet s s' := by
  unfold State.fail at h
  split at h
  · cases h
    exact quiet_setHandler ..
  · cases h
    exact quiet_setHandler ..
  · cases h

end Steps

/-- The floor of the broadcast does to an entry of the server what it does
here to a difficulty. -/
theorem raiseDifficulty_eq (newFloor : U64) (m : MinerState) :
    raiseDifficulty newFloor m
      = { m with difficulty := raised newFloor m.difficulty } := by
  show (if m.difficulty < safeDiff newFloor then
    { m with difficulty := safeDiff newFloor } else m) = _
  unfold raised
  by_cases h : m.difficulty < safeDiff newFloor
  · rw [if_pos h, if_pos h]
  · rw [if_neg h, if_neg h]

end M1n3Protocol.Vardiff
