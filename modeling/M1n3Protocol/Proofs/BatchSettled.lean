/-
What becomes of the shares on the sidecar's queue.

# One line

Settled batches, the batch and the queue are one line: a step moves shares
along it or adds one at its end (`accounts_of_reach`). A batch leaves its place
only as a whole. It is confirmed, its calls having all succeeded in one
transaction, or it is dropped, because the transaction aborted or because
of an error that is not taken for one of the connection. On any other
error it stays (`flush_ok`).

# Progress

Where the flusher goes on taking shares, and not every tick meets a
transient error, each share is settled in its turn (`shares_settled`).

# What a dropped batch takes along

A transaction aborts for one share, and the others in it are dropped too
(`good_share_dropped`).
-/
import M1n3Protocol.Lib.Run
import M1n3Protocol.Proofs.Rounds
import M1n3Protocol.Sidecar.Flusher

namespace M1n3Protocol.Sidecar

open Checked Client

variable {H : HashFn} {cfg : Config} {s s' : State}

-- ============================================================= the errors

/-- Searching a text finds what was put into it. -/
theorem contains_of_infix {word : String} {before after : Text}
    (hlower : word.toList.map Char.toLower = word.toList) :
    contains ((before ++ word.toList ++ after).map Char.toLower) word
      = true := by
  apply decide_eq_true
  rw [List.map_append, List.map_append, hlower]
  exact ⟨before.map Char.toLower, after.map Char.toLower, rfl⟩

/-- An abort is never taken for an error of the connection. -/
theorem aborted_not_transient (lane : BatchLane) (status digest : Text) :
    isTransientRpcError (lane.aborted status digest) = false := by
  have hword : " aborted on chain: ".toList
      = [' '] ++ "aborted on chain".toList ++ [':', ' '] := by
    decide +kernel
  have hsplit : ∃ before after, lane.aborted status digest
      = before ++ "aborted on chain".toList ++ after := by
    unfold BatchLane.aborted
    rw [hword]
    generalize "aborted on chain".toList = word
    refine ⟨lane.entry.toList ++ [' '], [':', ' '] ++ (status
      ++ " (digest: ".toList ++ digest ++ ")".toList), ?_⟩
    simp only [List.append_assoc]
  obtain ⟨before, after, heq⟩ := hsplit
  have hfound : contains ((lane.aborted status digest).map Char.toLower)
      "aborted on chain" = true := by
    rw [heq]
    exact contains_of_infix (by decide)
  unfold isTransientRpcError
  exact if_pos hfound

/-- The attempt meets an error that is taken for one of the connection. -/
def transient : Attempt → Bool
  | .unsent error => isTransientRpcError error
  | .unanswered _ error => isTransientRpcError error
  | .answered .. => false

-- ============================================================= settlements

/-- What each settlement is founded on. -/
inductive Settlement.Sound (H : HashFn) (cfg : Config) : Settlement → Prop
  /-- All calls of the batch succeed, one after the other. -/
  | confirmed {batch : List Item} {before begun after : World}
      {lane : BatchLane} {prepared : Prepared} {epoch timestampMs : U64}
      {status digest : Text} {calls : List (ID × Submission)}
      (hcalls : resolve cfg.objectId batch = some calls)
      (hbegin : before.beginTx cfg.miner epoch timestampMs = .ok begun)
      (hexec : executePtb H lane prepared calls begun = .ok after) :
      Sound H cfg ⟨batch, before, lane,
        .answered prepared epoch timestampMs status digest, true⟩
  /-- A call aborts. -/
  | aborted {batch : List Item} {before begun : World} {lane : BatchLane}
      {prepared : Prepared} {epoch timestampMs : U64} {status digest : Text}
      {calls : List (ID × Submission)} {e : Abort}
      (hcalls : resolve cfg.objectId batch = some calls)
      (hbegin : before.beginTx cfg.miner epoch timestampMs = .ok begun)
      (hexec : executePtb H lane prepared calls begun = .error e) :
      Sound H cfg ⟨batch, before, lane,
        .answered prepared epoch timestampMs status digest, false⟩
  /-- An error is not taken for one of the connection. -/
  | failed {batch : List Item} {before : World} {lane : BatchLane}
      {attempt : Attempt} {error : Text}
      (hattempt : attempt = .unsent error
        ∨ ∃ prepared, attempt = .unanswered prepared error)
      (herror : isTransientRpcError error = false) :
      Sound H cfg ⟨batch, before, lane, attempt, false⟩

/-- The shares of the batches settled, in order. -/
def State.settledItems (s : State) : List Item :=
  s.settled.flatMap Settlement.batch

-- =============================================================== one flush

/-- What submitting a batch leaves as it is. -/
structure Frame (s s' : State) : Prop where
  queue : s'.queue = s.queue
  batch : s'.batch = s.batch
  queued : s'.queued = s.queued
  settled : s'.settled = s.settled
  landed : s'.landed = s.landed

/-- What an answer to a batch means. -/
def Answers (H : HashFn) (cfg : Config) (s : State) (batch : List Item)
    (attempt : Attempt) : Except Text Unit → Prop
  | .ok () => Settlement.Sound H cfg
      ⟨batch, s.world, s.lane cfg, attempt, true⟩
  | .error e => transient attempt = isTransientRpcError e
      ∧ (isTransientRpcError e = false → Settlement.Sound H cfg
        ⟨batch, s.world, s.lane cfg, attempt, false⟩)

theorem submitBatch_ok {batch : List Item} {attempt : Attempt}
    {answer : Except Text Unit}
    (h : s.submitBatch H cfg batch attempt = .ok (s', answer)) :
    Frame s s' ∧ Answers H cfg s batch attempt answer := by
  cases attempt with
  | unsent error =>
      cases h
      exact ⟨⟨rfl, rfl, rfl, rfl, rfl⟩, rfl, .failed (.inl rfl)⟩
  | unanswered prepared error =>
      simp only [State.submitBatch] at h
      split at h
      case h_1 => cases h
      case h_2 calls hcalls =>
          cases h
          exact ⟨⟨rfl, rfl, rfl, rfl, rfl⟩, rfl,
            .failed (.inr ⟨prepared, rfl⟩)⟩
  | answered prepared epoch timestampMs status digest =>
      simp only [State.submitBatch] at h
      split at h
      case h_1 calls w hcalls hbegin =>
          split at h
          case h_1 world hexec =>
              cases h
              exact ⟨⟨rfl, rfl, rfl, rfl, rfl⟩, .confirmed hcalls hbegin hexec⟩
          case h_2 e hexec =>
              cases h
              refine ⟨⟨rfl, rfl, rfl, rfl, rfl⟩, ?_, fun _ => ?_⟩
              · exact (aborted_not_transient _ status digest).symm
              · exact .aborted hcalls hbegin hexec
      case h_2 => cases h

/-- A flush puts the batch back as it was, after an error taken for one of
the connection, or settles it as a whole. -/
inductive Flushed (H : HashFn) (cfg : Config) (s s' : State)
    (attempt : Attempt) : Prop
  | empty (hbatch : s.batch = []) (heq : s' = s)
  | putBack (htransient : transient attempt = true) (hframe : Frame s s')
  | settled (b : Settlement) (hb : b.Sound H cfg) (hbatch : b.batch = s.batch)
      (hqueue : s'.queue = s.queue) (hqueued : s'.queued = s.queued)
      (hleft : s'.batch = []) (hsettled : s'.settled = s.settled ++ [b])
      (hlanded : s'.landed = s.landed)

theorem flush_ok {attempt : Attempt}
    (h : s.flush H cfg attempt = .ok s') : Flushed H cfg s s' attempt := by
  unfold State.flush at h
  split at h
  case isTrue hempty =>
      cases h
      exact .empty hempty rfl
  case isFalse =>
      dsimp only at h
      split at h
      case h_1 => cases h
      case h_2 t hsubmit =>
          cases h
          obtain ⟨hframe, hanswer⟩ := submitBatch_ok hsubmit
          exact .settled _ hanswer rfl hframe.queue hframe.queued
            hframe.batch (congrArg (· ++ [_]) hframe.settled) hframe.landed
      case h_3 t e hsubmit =>
          obtain ⟨hframe, htransient, hsound⟩ := submitBatch_ok hsubmit
          split at h
          case isTrue hyes =>
              cases h
              exact .putBack (htransient.trans hyes) ⟨hframe.queue,
                congrArg (· ++ s.batch) hframe.batch, hframe.queued,
                hframe.settled, hframe.landed⟩
          case isFalse hno =>
              cases h
              exact .settled _ (hsound (Bool.eq_false_iff.mpr hno)) rfl
                hframe.queue hframe.queued hframe.batch
                (congrArg (· ++ [_]) hframe.settled) hframe.landed

-- ================================================================ the line

/-- Where the shares that came onto the queue are, and what each settled
batch is founded on. -/
structure Accounts (H : HashFn) (cfg : Config) (s : State) : Prop where
  line : s.queued = s.settledItems ++ s.batch ++ s.queue
  sound : ∀ b ∈ s.settled, b.Sound H cfg

theorem settledItems_snoc {b : Settlement}
    (h : s'.settled = s.settled ++ [b]) :
    s'.settledItems = s.settledItems ++ b.batch := by
  simp only [State.settledItems, h, List.flatMap_append, List.flatMap_cons,
    List.flatMap_nil, List.append_nil]

theorem Frame.settledItems (h : Frame s s') :
    s'.settledItems = s.settledItems := by
  rw [State.settledItems, State.settledItems, h.settled]

theorem Accounts.flushed {attempt : Attempt} (h : Accounts H cfg s)
    (hflush : Flushed H cfg s s' attempt) : Accounts H cfg s' := by
  cases hflush with
  | empty hbatch heq =>
      rw [heq]
      exact h
  | putBack htransient hframe =>
      constructor
      · rw [hframe.queued, hframe.settledItems, hframe.batch, hframe.queue]
        exact h.line
      · rw [hframe.settled]
        exact h.sound
  | settled b hb hbatch hqueue hqueued hleft hsettled hlanded =>
      constructor
      · rw [hqueued, settledItems_snoc hsettled, hbatch, hleft, hqueue,
          List.append_nil]
        exact h.line
      · rw [hsettled]
        intro b' hb'
        rcases List.mem_append.mp hb' with hold | hnew
        · exact h.sound b' hold
        · rw [List.mem_singleton.mp hnew]
          exact hb

/-- The flusher takes a share. -/
theorem Accounts.taken {item : Item} {rest : List Item}
    (h : Accounts H cfg s) (hqueue : s.queue = item :: rest) :
    Accounts H cfg { s with
      queue := rest
      batch := s.batch ++ [item] } := by
  refine ⟨?_, h.sound⟩
  show s.queued = s.settledItems ++ (s.batch ++ [item]) ++ rest
  rw [h.line, hqueue]
  simp only [List.append_assoc, List.singleton_append]

theorem Accounts.step {c : Event} (h : Accounts H cfg s)
    (hs : s.step H cfg c = .ok s') : Accounts H cfg s' := by
  cases c with
  | call c =>
      simp only [State.step] at hs
      split at hs <;> cases hs
      exact ⟨h.line, h.sound⟩
  | queue item =>
      cases hs
      refine ⟨?_, h.sound⟩
      show s.queued ++ [item] = _
      rw [h.line, List.append_assoc]
      rfl
  | recv attempt =>
      simp only [State.step, State.recv] at hs
      split at hs
      case h_1 => cases hs
      case h_2 item rest hqueue =>
          have htaken := h.taken hqueue
          split at hs
          case isTrue => exact htaken.flushed (flush_ok hs)
          case isFalse =>
              cases hs
              exact htaken
  | tick attempt => exact h.flushed (flush_ok hs)
  | setHashshareMint cap =>
      cases hs
      exact ⟨h.line, h.sound⟩
  | land i epoch timestampMs =>
      simp only [State.step, State.land] at hs
      split at hs
      case h_1 =>
          split at hs <;> cases hs <;> exact ⟨h.line, h.sound⟩
      case h_2 => cases hs

variable {publisher : Address} {hashshare : Option ID}

/-- Each share is settled, in the batch, or on the queue, in the order in
which it came. -/
theorem accounts_of_reach
    (h : Machine.Reach (batchFlusher H cfg publisher hashshare) s) :
    Accounts H cfg s := by
  refine Machine.ReachVia.invariant (I := Accounts H cfg)
    ⟨rfl, fun b hb => by cases hb⟩ ?_ h
  intro s c s' hI _ hs
  exact hI.step hs

-- ================================================================ progress

/-- How many shares the flusher has taken. -/
def State.taken (s : State) : Nat := s.settledItems.length + s.batch.length

/-- What has come, and what is taken and settled of it, only grows. -/
structure Grows (s s' : State) : Prop where
  queued : s.queued <+: s'.queued
  taken : s.taken ≤ s'.taken
  settled : s.settled <+: s'.settled
  landed : s.landed <+: s'.landed

theorem Grows.refl : Grows s s :=
  ⟨List.prefix_rfl, Nat.le_refl _, List.prefix_rfl, List.prefix_rfl⟩

/-- A flush takes none. -/
theorem Flushed.taken {attempt : Attempt}
    (h : Flushed H cfg s s' attempt) : s'.taken = s.taken := by
  cases h with
  | empty hbatch heq => rw [heq]
  | putBack htransient hframe =>
      rw [State.taken, State.taken, hframe.settledItems, hframe.batch]
  | settled b hb hbatch hqueue hqueued hleft hsettled hlanded =>
      rw [State.taken, State.taken, settledItems_snoc hsettled, hbatch, hleft,
        List.length_append]
      rfl

theorem Flushed.grows {attempt : Attempt}
    (h : Flushed H cfg s s' attempt) : Grows s s' := by
  have htaken := h.taken
  cases h with
  | empty hbatch heq =>
      rw [heq]
      exact .refl
  | putBack htransient hframe =>
      exact ⟨hframe.queued ▸ List.prefix_rfl, Nat.le_of_eq htaken.symm,
        hframe.settled ▸ List.prefix_rfl, hframe.landed ▸ List.prefix_rfl⟩
  | settled b hb hbatch hqueue hqueued hleft hsettled hlanded =>
      refine ⟨hqueued ▸ List.prefix_rfl, Nat.le_of_eq htaken.symm, ?_,
        hlanded ▸ List.prefix_rfl⟩
      rw [hsettled]
      exact List.prefix_append _ _

/-- Unless it meets a transient error, a flush leaves no share in the
batch. -/
theorem Flushed.all_settled {attempt : Attempt}
    (h : Flushed H cfg s s' attempt) (hno : transient attempt = false) :
    s'.settledItems.length = s.taken := by
  cases h with
  | empty hbatch heq =>
      rw [heq, State.taken, hbatch]
      rfl
  | putBack htransient hframe =>
      rw [hno] at htransient
      cases htransient
  | settled b hb hbatch hqueue hqueued hleft hsettled hlanded =>
      rw [State.taken, settledItems_snoc hsettled, hbatch,
        List.length_append]

/-- The flusher takes one share. -/
theorem recv_grows {attempt : Attempt}
    (h : s.recv H cfg attempt = .ok s') :
    Grows s s' ∧ s'.taken = s.taken + 1 := by
  unfold State.recv at h
  split at h
  case h_1 => cases h
  case h_2 item rest hqueue =>
      have hone : State.taken { s with
          queue := rest
          batch := s.batch ++ [item] } = s.taken + 1 := by
        simp only [State.taken, State.settledItems, List.length_append,
          List.length_singleton]
        omega
      dsimp only at h
      split at h
      case isTrue =>
          have hgrows := (flush_ok h).grows
          have htaken := (flush_ok h).taken.trans hone
          refine ⟨⟨hgrows.queued, ?_, hgrows.settled, hgrows.landed⟩, htaken⟩
          exact htaken ▸ Nat.le_succ _
      case isFalse =>
          cases h
          refine ⟨⟨List.prefix_rfl, ?_, List.prefix_rfl, List.prefix_rfl⟩,
            hone⟩
          exact hone ▸ Nat.le_succ _

theorem step_grows {c : Event} (hs : s.step H cfg c = .ok s') :
    Grows s s' := by
  cases c with
  | call c =>
      simp only [State.step] at hs
      split at hs <;> cases hs
      exact ⟨List.prefix_rfl, Nat.le_refl _, List.prefix_rfl, List.prefix_rfl⟩
  | queue item =>
      cases hs
      exact ⟨List.prefix_append _ _, Nat.le_refl _, List.prefix_rfl,
        List.prefix_rfl⟩
  | recv attempt => exact (recv_grows hs).1
  | tick attempt => exact (flush_ok hs).grows
  | setHashshareMint cap =>
      cases hs
      exact ⟨List.prefix_rfl, Nat.le_refl _, List.prefix_rfl, List.prefix_rfl⟩
  | land i epoch timestampMs =>
      simp only [State.step, State.land] at hs
      split at hs
      case h_1 =>
          split at hs
          case h_1 =>
              cases hs
              exact ⟨List.prefix_rfl, Nat.le_refl _, List.prefix_rfl,
                List.prefix_append _ _⟩
          case h_2 =>
              cases hs
              exact ⟨List.prefix_rfl, Nat.le_refl _, List.prefix_rfl,
                List.prefix_rfl⟩
      case h_2 => cases hs

-- ============================================================= the result

/-- The flusher goes on taking shares, and again and again the ticker ends
without a transient error. -/
structure Fair (ρ : (batchFlusher H cfg publisher hashshare).Run) :
    Prop where
  takes : Machine.Often fun n =>
    (∃ attempt, ρ.inputs n = .recv attempt) ∨ (ρ.states n).queue = []
  settles : Machine.Often fun n =>
    ∃ attempt, ρ.inputs n = .tick attempt ∧ transient attempt = false

variable (ρ : (batchFlusher H cfg publisher hashshare).Run)

/-- What is on the queue is taken. -/
theorem eventually_taken (hfair : Fair ρ) (n : Nat) :
    ∃ m, n ≤ m ∧ (ρ.states n).queued.length ≤ (ρ.states m).taken := by
  generalize hk : (ρ.states n).queued.length = k
  by_cases hdone : k ≤ (ρ.states n).taken
  · exact ⟨n, Nat.le_refl n, hdone⟩
  refine ρ.leadsTo
    (P := fun s => Accounts H cfg s ∧ k ≤ s.queued.length ∧ s.taken < k)
    (Q := fun s => k ≤ s.taken) (r := fun s => k - s.taken)
    (C := fun s c => (∃ attempt, c = .recv attempt) ∨ s.queue = [])
    ?_ hfair.takes ⟨accounts_of_reach (ρ.reach n), Nat.le_of_eq hk.symm,
      Nat.lt_of_not_le hdone⟩
  rintro s c s' ⟨hacc, hqueued, htaken⟩ hs
  have hgrows := step_grows hs
  by_cases hQ : k ≤ s'.taken
  · exact .inl hQ
  · refine .inr ⟨⟨hacc.step hs, ?_, Nat.lt_of_not_le hQ⟩, ?_, ?_⟩
    · exact Nat.le_trans hqueued hgrows.queued.length_le
    · exact Nat.sub_le_sub_left hgrows.taken k
    · rintro (⟨attempt, rfl⟩ | hempty)
      · have hone := (recv_grows hs).2
        omega
      · have hlen := congrArg List.length hacc.line
        rw [hempty, List.append_nil, List.length_append] at hlen
        have hall : s.queued.length = s.taken := hlen
        omega

/-- What is taken is settled. -/
theorem eventually_settled (hfair : Fair ρ) (n : Nat) :
    ∃ m, n ≤ m ∧ (ρ.states n).taken ≤ (ρ.states m).settledItems.length := by
  generalize hk : (ρ.states n).taken = k
  refine ρ.leadsTo (P := fun s => k ≤ s.taken)
    (Q := fun s => k ≤ s.settledItems.length) (r := fun _ => 0)
    (C := fun _ c =>
      ∃ attempt, c = .tick attempt ∧ transient attempt = false)
    ?_ hfair.settles (Nat.le_of_eq hk.symm)
  intro s c s' hP hs
  by_cases hhelp : ∃ attempt, c = .tick attempt ∧ transient attempt = false
  · obtain ⟨attempt, rfl, hno⟩ := hhelp
    have hall := (flush_ok hs).all_settled hno
    exact .inl (hall ▸ hP)
  · refine .inr ⟨Nat.le_trans hP (step_grows hs).taken, Nat.le_refl 0, ?_⟩
    exact fun h => absurd h hhelp

/-- Every share that comes onto the queue is settled in its turn: in a
batch all of whose calls succeed in one transaction, or in one that is
dropped as a whole, because its transaction aborts or because of an error
not taken for one of the connection. -/
theorem shares_settled (hfair : Fair ρ) (n : Nat) :
    ∃ m, n ≤ m ∧ (ρ.states n).queued <+: (ρ.states m).settledItems
      ∧ ∀ b ∈ (ρ.states m).settled, b.Sound H cfg := by
  obtain ⟨i, hi, htaken⟩ := eventually_taken ρ hfair n
  obtain ⟨m, hm, hsettled⟩ := eventually_settled ρ hfair i
  have hacc := accounts_of_reach (ρ.reach m)
  refine ⟨m, Nat.le_trans hi hm, ?_, hacc.sound⟩
  have hqueued : (ρ.states n).queued <+: (ρ.states m).queued :=
    ρ.stable (P := fun s => (ρ.states n).queued <+: s.queued)
      (fun s c s' hP hs => hP.trans (step_grows hs).queued) List.prefix_rfl
      (Nat.le_trans hi hm)
  refine List.prefix_of_prefix_length_le hqueued ?_
    (Nat.le_trans htaken hsettled)
  rw [hacc.line, List.append_assoc]
  exact List.prefix_append _ _

-- ================================================================== runs

/-- A share of the batch that the contract takes alone, on the chain the
batch was built on. -/
def GoodIn (H : HashFn) (cfg : Config) (b : Settlement) (item : Item) :
    Prop :=
  item ∈ b.batch ∧ ∃ prepared epoch timestampMs calls begun after,
    resolve cfg.objectId [item] = some calls
      ∧ b.before.beginTx cfg.miner epoch timestampMs = .ok begun
      ∧ executePtb H b.lane prepared calls begun = .ok after

/-- The shares of the transactions that committed. -/
def State.committed (s : State) : List Item :=
  (s.settled.filter Settlement.confirmed).flatMap Settlement.batch
    ++ s.landed

/-- Where there is nothing to do, the flusher can go on doing nothing. -/
theorem fair_run_of_reach
    (h : Machine.Reach (batchFlusher H cfg publisher hashshare) s)
    (hqueue : s.queue = []) (hbatch : s.batch = []) :
    ∃ ρ : (batchFlusher H cfg publisher hashshare).Run,
      Fair ρ ∧ ∃ n, ∀ m, n ≤ m → ρ.states m = s := by
  have hstay : (batchFlusher H cfg publisher hashshare).step s
      (.tick (.unsent [])) = .ok s := if_pos hbatch
  obtain ⟨ρ, n, hρ⟩ := Machine.exists_run_of_reach h hstay
  refine ⟨ρ, ⟨fun i => ?_, fun i => ?_⟩, n, fun m hm => (hρ m hm).1⟩
  · obtain ⟨hstate, -⟩ := hρ (max i n) (Nat.le_max_right i n)
    exact ⟨max i n, Nat.le_max_left i n, .inr (hstate ▸ hqueue)⟩
  · obtain ⟨-, hinput⟩ := hρ (max i n) (Nat.le_max_right i n)
    refine ⟨max i n, Nat.le_max_left i n, _, hinput, ?_⟩
    decide +kernel

/-- What has committed stays. -/
theorem Grows.committed {item : Item} (h : Grows s s')
    (hmem : item ∈ s.committed) : item ∈ s'.committed := by
  rcases List.mem_append.mp hmem with hsettled | hlanded
  · obtain ⟨b, hb, hitem⟩ := List.mem_flatMap.mp hsettled
    obtain ⟨hb, hconfirmed⟩ := List.mem_filter.mp hb
    refine List.mem_append_left _ (List.mem_flatMap.mpr ⟨b, ?_, hitem⟩)
    exact List.mem_filter.mpr ⟨h.settled.subset hb, hconfirmed⟩
  · exact List.mem_append_right _ (h.landed.subset hlanded)

def sidecarConfig : Config :=
  { miner := 1
    objectId := fun id => if id = "0xa1".toList then some 0 else none
    hashpowerBuy := none, batchSize := 2 }

/-- A share on the solved template. -/
def shareWith (nonce : U32) : Item :=
  ("0xa1".toList, { extranonce1 := [], extranonce2 := [],
                    ntime := block125552.ntime, nonce, version := 1 })

/-- A miner has its objects for the round of the template. -/
def readyToShare : List Event :=
  [.call (.admin (.registerTemplate block125552)),
   .call (.beginTx 1 0 0),
   .call (.mining (.registerMiner [])),
   .call (.mining (.createRoundStats 0 0)),
   .call (.mining (.createShareDedup 0))]

/-- The transaction is executed at once. -/
def executed : Attempt := .answered ⟨⟨0, 0, 0⟩, 0⟩ 0 0 [] []

/-- Put back once, a good share is confirmed. -/
theorem shares_settled_putBack :
    ∃ (ρ : (batchFlusher sha256 sidecarConfig 0 none).Run) (n m : Nat)
      (b : Settlement), Fair ρ
        ∧ (ρ.states n).queued = [shareWith 0x9546a142]
        ∧ n ≤ m ∧ (ρ.states n).queued <+: (ρ.states m).settledItems
        ∧ (ρ.states m).settled = [b] ∧ b.confirmed = true
        ∧ b.Sound sha256 sidecarConfig := by
  have hrun : (batchFlusher sha256 sidecarConfig 0 none).endsIn
      (readyToShare ++ [.queue (shareWith 0x9546a142), .recv (.unsent []),
        .tick (.unsent "Request timeout".toList), .tick executed]) (fun s =>
          decide (s.queue = [] ∧ s.batch = []
            ∧ s.queued = [shareWith 0x9546a142]
            ∧ s.settled.map Settlement.confirmed = [true])) = true := by
    decide +kernel
  obtain ⟨s, hs, hcheck⟩ := Machine.reach_of_endsIn hrun
  obtain ⟨hqueue, hbatch, hqueued, hone⟩ := of_decide_eq_true hcheck
  obtain ⟨ρ, hfair, n, hρ⟩ := fair_run_of_reach hs hqueue hbatch
  obtain ⟨m, hm, hprefix, hsound⟩ := shares_settled ρ hfair n
  obtain ⟨b, hb, hconfirmed⟩ := List.map_eq_singleton_iff.mp hone
  have hsettled : (ρ.states m).settled = [b] := by rw [hρ m hm, hb]
  refine ⟨ρ, n, m, b, hfair, ?_, hm, hprefix, hsettled, hconfirmed, ?_⟩
  · rw [hρ n (Nat.le_refl n)]
    exact hqueued
  · apply hsound
    rw [hsettled]
    exact List.mem_singleton_self b

/-- Beside a share that is worth too little, a good one is dropped, and
never part of a transaction that commits. -/
theorem good_share_dropped :
    ∃ ρ : (batchFlusher sha256 sidecarConfig 0 none).Run, Fair ρ
      ∧ ∃ n b, b ∈ (ρ.states n).settled
        ∧ GoodIn sha256 sidecarConfig b (shareWith 0x9546a142)
        ∧ ∀ m, shareWith 0x9546a142 ∉ (ρ.states m).committed := by
  have hrun : (batchFlusher sha256 sidecarConfig 0 none).endsIn
      (readyToShare ++ [.queue (shareWith 0x9546a142), .queue (shareWith 0),
        .recv (.unsent []), .recv executed]) (fun s =>
          decide (s.queue = [] ∧ s.batch = [] ∧ s.committed = [])
            && s.settled.any fun b =>
              decide (shareWith 0x9546a142 ∈ b.batch)
                && (resolve sidecarConfig.objectId
                    [shareWith 0x9546a142]).any fun calls =>
                  (b.before.beginTx 1 0 0).toOption.any fun begun =>
                    (executePtb sha256 b.lane ⟨⟨0, 0, 0⟩, 0⟩ calls
                      begun).toOption.isSome) = true := by
    decide +kernel
  obtain ⟨s, hs, hcheck⟩ := Machine.reach_of_endsIn hrun
  obtain ⟨hends, hgood⟩ := Bool.and_eq_true_iff.mp hcheck
  obtain ⟨hqueue, hbatch, hnone⟩ := of_decide_eq_true hends
  obtain ⟨b, hb, hgood⟩ := List.any_eq_true.mp hgood
  obtain ⟨hmem, hgood⟩ := Bool.and_eq_true_iff.mp hgood
  obtain ⟨calls, hcalls, hgood⟩ := (Option.any_eq_true ..).mp hgood
  obtain ⟨begun, hbegin, hgood⟩ := (Option.any_eq_true ..).mp hgood
  obtain ⟨after, hexec⟩ := Option.isSome_iff_exists.mp hgood
  obtain ⟨ρ, hfair, n, hρ⟩ := fair_run_of_reach hs hqueue hbatch
  have hend : ρ.states n = s := hρ n (Nat.le_refl n)
  refine ⟨ρ, hfair, n, b, hend ▸ hb, ⟨of_decide_eq_true hmem, ⟨⟨0, 0, 0⟩, 0⟩,
    0, 0, calls, begun, after, hcalls, toOption_eq_some.mp hbegin,
    toOption_eq_some.mp hexec⟩, fun m hm => ?_⟩
  -- what had committed by then would have to be there at the end
  have hlate := ρ.stable (P := fun s => shareWith 0x9546a142 ∈ s.committed)
    (fun _ _ _ hP hs => (step_grows hs).committed hP) hm
    (Nat.le_max_left m n)
  rw [hρ (max m n) (Nat.le_max_right m n), hnone] at hlate
  cases hlate

end M1n3Protocol.Sidecar
