/-
What the stratum server makes of shares: how long their extranonces are,
and the line on which accepted ones go to the chain.

# Extranonces

A miner's `extranonce1` is eight hex digits of a random number, or eight
bytes of its username. Whatever text those are, a share is built from it
only if it decodes, and then it is four bytes (`FourBytes`).

# The line

Queue, batch and what was handed to `submit_batch` are one line: an event
moves shares along it or adds those it accepts at the end, so the calls
made and still to come are those of the shares accepted, each once and in
order (`line_eq`).
-/
import M1n3Protocol.Stratum.JobStep

namespace M1n3Protocol

open Checked

variable {H : HashFn} {cfg : Config} {s s' : ServerState}

-- ========================================================== mined shares

/-- The share a submission stands for, duplicate or not. -/
def ServerState.mined (s : ServerState) (addr : SocketAddr)
    (share : ShareSubmission) : Except SubmitError Mined := do
  let c ← s.look addr share
  c.build share

/-- Where the parts of a mined share are from. -/
structure MinedFrom (s : ServerState) (addr : SocketAddr)
    (share : ShareSubmission) (miner : MinerState) (m : Mined) : Prop where
  job_eq : s.jobs.lookup share.jobId = some m.job
  miner_eq : s.miners addr = some miner
  extranonce1_eq : Hex.decode miner.extranonce1 = some m.extranonce1
  extranonce2_eq : Hex.decode share.extranonce2 = some m.extranonce2
  length_extranonce2 : m.extranonce2.length = 8

theorem validateShareParams_ok {share : ShareSubmission} {u : Unit}
    (h : validateShareParams share = .ok u) :
    ∃ en2, Hex.decode share.extranonce2 = some en2 ∧ en2.length = 8 := by
  simp only [validateShareParams, bind_eq_ok, require_eq_ok,
    fetch_eq_ok] at h
  obtain ⟨-, -, -, -, -, -, -, -, en2, hen2, -, hlen, -⟩ := h
  exact ⟨en2, hen2, hlen⟩

theorem look_ok {addr : SocketAddr} {share : ShareSubmission}
    {c : Candidate} (h : s.look addr share = .ok c) :
    s.jobs.lookup share.jobId = some c.job
      ∧ s.miners addr = some c.miner := by
  simp only [ServerState.look, bind_eq_ok, require_eq_ok, fetch_eq_ok,
    pure_eq_ok] at h
  obtain ⟨_, -, job, hjob, miner, hminer, ntime, -, -, -, -, -, -, -,
    rfl⟩ := h
  exact ⟨hjob, hminer⟩

theorem mined_ok {addr : SocketAddr} {share : ShareSubmission} {m : Mined}
    (h : s.mined addr share = .ok m) :
    ∃ miner, MinedFrom s addr share miner m := by
  obtain ⟨c, hlook, hbuild⟩ := bind_eq_ok.mp h
  simp only [ServerState.look, bind_eq_ok, require_eq_ok, fetch_eq_ok,
    pure_eq_ok] at hlook
  obtain ⟨_, hparams, job, hjob, miner, hminer, ntime, -, -, -, -, -, -, -,
    rfl⟩ := hlook
  simp only [Candidate.build, bind_eq_ok, fetch_eq_ok, pure_eq_ok] at hbuild
  obtain ⟨en1, hen1, en2, hen2, -, -, rfl⟩ := hbuild
  obtain ⟨en2', hen2', hlen⟩ := validateShareParams_ok hparams
  rw [hen2] at hen2'
  cases hen2'
  exact ⟨miner, hjob, hminer, hen1, hen2, hlen⟩

/-- A version is what it is outside a mask and what it is within. -/
theorem split_by_mask (version mask : U32) :
    (version &&& ~~~mask) ||| (version &&& mask) = version := by
  ext i
  simp
  cases version[i] <;> simp

/-- An accepted share was looked up, is new to the duplicate table,
decodes, and is worth its miner's difficulty. -/
theorem judge_accepted_ok {addr : SocketAddr} {share : ShareSubmission}
    {key : Text} {m : Mined}
    (h : s.judge H addr share = .accepted key m) :
    ∃ c, s.look addr share = .ok c ∧ c.build share = .ok m
      ∧ key = share.key c.miner.extranonce1
      ∧ key ∉ s.submittedShares (shardIndex key)
      ∧ c.miner.difficulty
        ≤ calculateDifficultyFromHash (m.shareHash H) := by
  unfold ServerState.judge at h
  split at h
  case h_1 => cases h
  case h_2 c hlook =>
      dsimp only at h
      split at h
      case isTrue => cases h
      case isFalse hnew =>
          split at h
          case h_1 => cases h
          case h_2 m' hbuild =>
              split at h
              case isTrue => cases h
              case isFalse hlow =>
                  cases h
                  exact ⟨c, hlook, hbuild, rfl, hnew, BitVec.not_lt.mp hlow⟩

theorem judge_accepted {addr : SocketAddr} {share : ShareSubmission}
    {key : Text} {m : Mined}
    (h : s.judge H addr share = .accepted key m) :
    s.mined addr share = .ok m := by
  obtain ⟨c, hlook, hbuild, -⟩ := judge_accepted_ok h
  exact bind_eq_ok.mpr ⟨c, hlook, hbuild⟩

-- ================================================================ a poll

/-- The call a message asks for. -/
def BatchMsg.call : BatchMsg → Option (Text × PendingShare)
  | .share templatePda minerShare => some (templatePda, minerShare.pending)
  | _ => none

/-- Miners and batch stay, and no share goes on the queue. -/
structure PollFrame (s s' : ServerState) : Prop where
  miners : s'.miners = s.miners
  batch : s'.batch = s.batch
  submitted : s'.submitted = s.submitted
  minerTx : ∃ msgs, s'.minerTx = s.minerTx ++ msgs
    ∧ ∀ msg ∈ msgs, msg.call = none

theorem PollFrame.refl : PollFrame s s :=
  ⟨rfl, rfl, rfl, [], (List.append_nil _).symm, fun _ h => by cases h⟩

theorem send_frame (cfg : Config) (s : ServerState) {msg : BatchMsg}
    (hcall : msg.call = none) : PollFrame s (s.send cfg msg) := by
  unfold ServerState.send
  split
  case isTrue =>
      refine ⟨rfl, rfl, rfl, [msg], rfl, fun msg' hmsg => ?_⟩
      rw [List.mem_singleton.mp hmsg]
      exact hcall
  case isFalse => exact .refl

theorem refresh_frame (t : BlockTemplate) (due : Bool) :
    PollFrame s (s.refresh H cfg t due) := by
  have hsame : ∀ {n updater}, PollFrame s
      { s with jobCounter := n, updater := updater } :=
    ⟨rfl, rfl, rfl, [], (List.append_nil _).symm, fun _ h => by cases h⟩
  unfold ServerState.refresh
  dsimp only
  split
  case isTrue => exact .refl
  case isFalse =>
      split
      case h_1 => exact .refl
      case h_2 =>
          split
          case h_1 => exact hsame
          case h_2 =>
              split
              case isTrue =>
                  have hsent := send_frame cfg
                    { s with jobCounter := s.jobCounter + 1 }
                    (rfl : BatchMsg.flushAndWait.call = none)
                  exact ⟨hsent.miners, hsent.batch, hsent.submitted,
                    hsent.minerTx⟩
              case isFalse => exact hsame

theorem newBlock_frame (t : BlockTemplate) :
    PollFrame s (s.newBlock H cfg t) := by
  unfold ServerState.newBlock
  dsimp only
  split
  case h_1 =>
      exact ⟨rfl, rfl, rfl, [], (List.append_nil _).symm,
        fun _ h => by cases h⟩
  case h_2 =>
      have hsent := send_frame cfg
        { s with jobCounter := s.jobCounter + 1 }
        (rfl : BatchMsg.flush.call = none)
      exact ⟨hsent.miners, hsent.batch, hsent.submitted, hsent.minerTx⟩

theorem poll_frame (t : BlockTemplate) (due : Bool) :
    PollFrame s (s.poll H cfg t due) := by
  unfold ServerState.poll
  split
  case h_1 => exact .refl
  case h_2 =>
      split
      case isTrue => exact refresh_frame t due
      case isFalse => exact newBlock_frame t

theorem polled_frame {template : Option BlockTemplate} {due : Bool}
    (hs : s.step H cfg (.poll template due) = .ok s') : PollFrame s s' := by
  obtain ⟨-, rfl | ⟨t, -, rfl⟩⟩ := poll_ok hs
  · exact .refl
  · exact poll_frame t due

-- ============================================================ extranonces

/-- Where it decodes, it is four bytes. -/
def FourBytes (extranonce1 : Text) : Prop :=
  ∀ bs, Hex.decode extranonce1 = some bs → bs.length = 4

theorem fourBytes_of_length {cs : Text} (h : cs.length = 8) :
    FourBytes cs := by
  intro bs hbs
  have hlen := (Hex.of_decode hbs).1
  omega

theorem fourBytes_connected (random : U32) :
    FourBytes (connected s random).extranonce1 :=
  fourBytes_of_length (Hex.length_padded random.isLt)

/-- Eight bytes of a username that decode are eight characters. -/
theorem fourBytes_derived {suiAddress extranonce1 : Text}
    (h : deriveExtranonce1FromSuiAddress suiAddress = some extranonce1) :
    FourBytes extranonce1 := by
  obtain ⟨slice, hslice, rfl⟩ := Option.map_eq_some_iff.mp h
  intro bs hbs
  obtain ⟨hlen, hdigits⟩ := Hex.of_decode hbs
  have hchars := Hex.length_of_digits fun c hc =>
    hdigits c.toLower (List.mem_map_of_mem hc)
  rw [Hex.utf8Length_of_take hslice] at hchars
  rw [List.length_map, hchars] at hlen
  omega

theorem authorized_extranonce1 (m : MinerState) (params : List Value) :
    (m.authorized params).extranonce1 = m.extranonce1
      ∨ ∃ suiAddress, deriveExtranonce1FromSuiAddress suiAddress
        = some (m.authorized params).extranonce1 := by
  unfold MinerState.authorized
  dsimp only
  split
  case h_1 => exact .inl rfl
  case h_2 =>
      split
      case h_1 => exact .inl rfl
      case h_2 suiAddress _ _ extranonce1 hderived =>
          exact .inr ⟨suiAddress, hderived⟩

@[simp] theorem raiseDifficulty_extranonce1 (newFloor : U64)
    (m : MinerState) :
    (raiseDifficulty newFloor m).extranonce1 = m.extranonce1 := by
  unfold raiseDifficulty
  dsimp only
  generalize (if newFloor < 1 then 1 else newFloor) = safeFloor
  split <;> rfl

/-- What holds of the extranonce of every miner connected. -/
def EachExtranonce1 (P : Text → Prop) (s : ServerState) : Prop :=
  ∀ addr m, s.miners addr = some m → P m.extranonce1

/-- Every miner connected has such an extranonce. -/
def MinersFour (s : ServerState) : Prop :=
  ∀ addr m, s.miners addr = some m → FourBytes m.extranonce1

section EachMiner

variable {P : Text → Prop}

theorem EachExtranonce1.set {addr : SocketAddr} {m : Option MinerState}
    (h : EachExtranonce1 P s)
    (hm : ∀ m', m = some m' → P m'.extranonce1) :
    EachExtranonce1 P (s.setMiner addr m) := by
  intro a m' hm'
  unfold ServerState.setMiner at hm'
  dsimp only at hm'
  split at hm'
  case isTrue => exact hm m' hm'
  case isFalse => exact h a m' hm'

theorem EachExtranonce1.of_miners (h : EachExtranonce1 P s)
    (hm : s'.miners = s.miners) : EachExtranonce1 P s' :=
  fun addr m hm' => h addr m (hm ▸ hm')

@[simp] theorem send_miners (msg : BatchMsg) :
    (s.send cfg msg).miners = s.miners := by
  unfold ServerState.send
  split <;> rfl

@[simp] theorem flush_miners : s.flush.miners = s.miners := by
  unfold ServerState.flush
  split <;> rfl

@[simp] theorem answer_miners : s.answer.miners = s.miners := by
  unfold ServerState.answer
  split <;> rfl

@[simp] theorem noteBlock_miners (m : Mined) :
    (s.noteBlock H m).miners = s.miners := by
  unfold ServerState.noteBlock
  split <;> rfl

@[simp] theorem queueShare_miners (m : Mined) :
    (s.queueShare cfg m).miners = s.miners := by
  unfold ServerState.queueShare
  split
  case h_1 => exact send_miners _
  case h_2 => rfl

theorem registered_miners {tpda : Option Text}
    (hs : s.registered tpda = .ok s') : s'.miners = s.miners := by
  unfold ServerState.registered at hs
  split at hs <;> cases hs <;> rfl

theorem recv_miners (hs : s.recv cfg = .ok s') :
    s'.miners = s.miners := by
  unfold ServerState.recv at hs
  split at hs
  case h_1 => cases hs
  case h_2 =>
      cases hs
      exact flush_miners
  case h_3 =>
      cases hs
      rw [answer_miners, flush_miners]
  case h_4 =>
      cases hs
      dsimp only
      split
      case isTrue => exact flush_miners
      case isFalse => rfl

theorem EachExtranonce1.credit (h : EachExtranonce1 P s) (addr : SocketAddr) :
    EachExtranonce1 P (s.credit addr).1 := by
  unfold ServerState.credit
  split
  case h_1 => exact h
  case h_2 m hm =>
      refine h.set fun m' hm' => ?_
      cases hm'
      exact h addr m hm

theorem EachExtranonce1.validate (h : EachExtranonce1 P s) (addr : SocketAddr)
    (share : ShareSubmission) :
    EachExtranonce1 P (validateAndSubmitShare H cfg s addr share).1 := by
  unfold validateAndSubmitShare
  split
  case h_1 => exact h
  case h_2 => exact h.of_miners rfl
  case h_3 key m _ => exact h.of_miners (noteBlock_miners m)
  case h_4 key m _ =>
      refine EachExtranonce1.credit (h.of_miners ?_) addr
      rw [queueShare_miners, noteBlock_miners]
      rfl

/-- A miner is given an extranonce when it connects, and another when it
names its address. -/
theorem EachExtranonce1.step {c : Event} (h : EachExtranonce1 P s)
    (hnew : ∀ random, P (connected s random).extranonce1)
    (hderived : ∀ suiAddress extranonce1,
      deriveExtranonce1FromSuiAddress suiAddress = some extranonce1 →
        P extranonce1)
    (hs : s.step H cfg c = .ok s') : EachExtranonce1 P s' := by
  cases c with
  | poll template due => exact h.of_miners (polled_frame hs).miners
  | registered tpda => exact h.of_miners (registered_miners hs)
  | connect addr random =>
      cases hs
      refine h.set fun m' hm' => ?_
      cases hm'
      exact hnew random
  | disconnect addr =>
      cases hs
      exact h.set fun m' hm' => by cases hm'
  | authorize addr params =>
      cases hs
      refine h.set fun m' hm' => ?_
      obtain ⟨m, hm, rfl⟩ := Option.map_eq_some_iff.mp hm'
      rcases authorized_extranonce1 m params with heq | ⟨_, heq⟩
      · rw [heq]
        exact h addr m hm
      · exact hderived _ _ heq
  | submit addr params =>
      cases hs
      exact h.validate addr _
  | globalDifficulty =>
      cases hs
      exact h.of_miners rfl
  | difficultyFloor newFloor =>
      cases hs
      intro addr m' hm'
      obtain ⟨m, hm, rfl⟩ := Option.map_eq_some_iff.mp hm'
      rw [raiseDifficulty_extranonce1]
      exact h addr m hm
  | recv => exact h.of_miners (recv_miners hs)
  | tick =>
      cases hs
      exact h.of_miners flush_miners

end EachMiner

theorem minersFour_of_reach {s : ServerState}
    (h : Machine.Reach (stratum H cfg) s) : MinersFour s := by
  refine Machine.ReachVia.invariant (I := EachExtranonce1 FourBytes) ?_ ?_ h
  · intro addr m hm
    cases hm
  · intro s c s' hI _ hs
    exact hI.step fourBytes_connected (fun _ _ => fourBytes_derived) hs

/-- Every miner's extranonce is written in lower case. -/
theorem minersLower_of_reach {s : ServerState}
    (h : Machine.Reach (stratum H cfg) s) : EachExtranonce1 Hex.Lower s := by
  refine Machine.ReachVia.invariant (I := EachExtranonce1 Hex.Lower) ?_ ?_ h
  · intro addr m hm
    cases hm
  · intro s c s' hI _ hs
    refine hI.step (fun random => Hex.lower_padded 8 _) ?_ hs
    intro suiAddress extranonce1 hderived
    obtain ⟨slice, -, rfl⟩ := Option.map_eq_some_iff.mp hderived
    exact Hex.lower_map_toLower slice

/-- The extranonce of a share is the twelve bytes its coinbase has room
for. -/
theorem mined_extranonce {addr : SocketAddr} {share : ShareSubmission}
    {m : Mined} (hfour : MinersFour s)
    (h : s.mined addr share = .ok m) :
    m.extranonce1.length = 4 ∧ m.extranonce2.length = 8 := by
  obtain ⟨miner, hfrom⟩ := mined_ok h
  exact ⟨hfour addr miner hfrom.miner_eq _ hfrom.extranonce1_eq,
    hfrom.length_extranonce2⟩

-- =============================================================== the line

/-- The calls made, in the batch, and on the queue, in order. -/
def ServerState.line (s : ServerState) : List (Text × PendingShare) :=
  s.submitted.flatten ++ s.batch ++ s.minerTx.filterMap BatchMsg.call

/-- The shares an event hands to the flusher, each with its template. -/
def ServerState.handed (H : HashFn) (s : ServerState) :
    Event → List (Text × Mined)
  | .submit addr params =>
      match s.judge H addr (parseSubmitParams params) with
      | .accepted _ m => (m.job.suiTemplateId.map fun tpda =>
          (tpda, m)).toList
      | _ => []
  | _ => []

/-- The call of a share. -/
def handOff (q : Text × Mined) : Text × PendingShare :=
  (q.1, q.2.minerShare.pending)

theorem line_send (hsolo : cfg.solo = true) (msg : BatchMsg) :
    (s.send cfg msg).line = s.line ++ msg.call.toList := by
  unfold ServerState.send ServerState.line
  rw [if_pos hsolo]
  dsimp only
  rw [List.filterMap_append, ← List.append_assoc]
  cases msg <;> rfl

@[simp] theorem line_flush : s.flush.line = s.line := by
  unfold ServerState.flush ServerState.line
  split
  case isTrue => rfl
  case isFalse =>
      rw [List.flatten_append, List.flatten_singleton, List.append_nil]

@[simp] theorem line_answer : s.answer.line = s.line := by
  unfold ServerState.answer
  split <;> rfl

@[simp] theorem line_credit (addr : SocketAddr) :
    (s.credit addr).1.line = s.line := by
  unfold ServerState.credit
  split <;> rfl

@[simp] theorem line_noteBlock (m : Mined) :
    (s.noteBlock H m).line = s.line := by
  unfold ServerState.noteBlock
  split <;> rfl

theorem line_queueShare (hsolo : cfg.solo = true) (m : Mined) :
    (s.queueShare cfg m).line = s.line
      ++ ((m.job.suiTemplateId.map fun tpda => (tpda, m)).toList).map
        handOff := by
  unfold ServerState.queueShare
  split
  case h_1 tpda htpda =>
      rw [htpda]
      exact line_send hsolo _
  case h_2 hnone =>
      rw [hnone]
      exact (List.append_nil _).symm

theorem line_validate (hsolo : cfg.solo = true) (addr : SocketAddr)
    (params : List Value) :
    (validateAndSubmitShare H cfg s addr (parseSubmitParams params)).1.line
      = s.line ++ (s.handed H (.submit addr params)).map handOff := by
  unfold validateAndSubmitShare ServerState.handed
  dsimp only
  generalize s.judge H addr (parseSubmitParams params) = verdict
  cases verdict with
  | refused => exact (List.append_nil _).symm
  | undecoded => exact (List.append_nil _).symm
  | low key m => exact (line_noteBlock m).trans (List.append_nil _).symm
  | accepted key m =>
      dsimp only
      rw [line_credit, line_queueShare hsolo, line_noteBlock]
      rfl

theorem PollFrame.line (h : PollFrame s s') : s'.line = s.line := by
  obtain ⟨msgs, hqueue, hnone⟩ := h.minerTx
  have hcalls : msgs.filterMap BatchMsg.call = [] :=
    List.filterMap_eq_nil_iff.mpr hnone
  rw [ServerState.line, ServerState.line, h.submitted, h.batch, hqueue,
    List.filterMap_append, hcalls, List.append_nil]

theorem line_recv (hs : s.recv cfg = .ok s') : s'.line = s.line := by
  unfold ServerState.recv at hs
  split at hs
  case h_1 => cases hs
  case h_2 rest hmsg =>
      cases hs
      rw [line_flush, ServerState.line, ServerState.line, hmsg]
      rfl
  case h_3 rest hmsg =>
      cases hs
      rw [line_answer, line_flush, ServerState.line, ServerState.line, hmsg]
      rfl
  case h_4 tpda share rest hmsg =>
      cases hs
      have hmoved : s.submitted.flatten
          ++ (s.batch ++ [(tpda, share.pending)])
          ++ rest.filterMap BatchMsg.call = s.line := by
        rw [ServerState.line, hmsg, List.filterMap_cons]
        simp only [BatchMsg.call, List.append_assoc, List.singleton_append]
      dsimp only
      split
      case isTrue => exact line_flush.trans hmoved
      case isFalse => exact hmoved

/-- One event: what it accepts comes to the end of the line. -/
theorem line_step (hsolo : cfg.solo = true) {c : Event}
    (hs : s.step H cfg c = .ok s') :
    s'.line = s.line ++ (s.handed H c).map handOff := by
  cases c with
  | submit addr params =>
      cases hs
      exact line_validate hsolo addr params
  | poll template due =>
      exact (polled_frame hs).line.trans (List.append_nil _).symm
  | registered tpda =>
      refine Eq.trans ?_ (List.append_nil _).symm
      simp only [ServerState.step, ServerState.registered] at hs
      split at hs <;> cases hs <;> rfl
  | recv => exact (line_recv hs).trans (List.append_nil _).symm
  | tick =>
      cases hs
      exact line_flush.trans (List.append_nil _).symm
  | connect | disconnect | authorize | globalDifficulty | difficultyFloor =>
      cases hs
      exact (List.append_nil _).symm

/-- The server beside the shares it has handed to the flusher. -/
def sharesHanded (H : HashFn) (cfg : Config) :
    Machine Unit (ServerState × List (Text × Mined)) Event :=
  (stratum H cfg).withGhost [] fun s c _ log => log ++ s.handed H c

/-- The line is the calls of the shares handed over. -/
theorem line_eq (hsolo : cfg.solo = true)
    {p : ServerState × List (Text × Mined)}
    (h : Machine.Reach (sharesHanded H cfg) p) :
    p.1.line = p.2.map handOff := by
  refine Machine.ReachVia.withGhost_invariant
    (I := fun s log => s.line = log.map handOff) rfl ?_ h
  intro s c s' log _ hI _ hs
  rw [List.map_append, ← hI]
  exact line_step hsolo hs

end M1n3Protocol
