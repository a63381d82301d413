/-
Whether the contract takes what the pooled server takes.

# Two validators

Server and contract hash the same header, and their difficulties differ
only where the contract's is capped. The version a share is given is the
template's outside the mask by construction. The time is checked on both
sides against the template's own: above it both allow two hours, below it
the server allows anything, so the contract's lower bound decides.

# What is left out

A job cannot hold a template whose fields have other lengths than a
block's, the upper bound of the contract's window does not fit where the
template's time is at the end of its range, and the contract cannot read
a hash below 2^64. What happens there is not the subject here.
-/
import M1n3Protocol.Proofs.Blocks
import M1n3Protocol.Proofs.HashDifficulty
import M1n3Protocol.Proofs.Lockout
import M1n3Protocol.Proofs.ShareHandOff
import M1n3Protocol.Stratum.Pooled

namespace M1n3Protocol

open Checked

variable {H : HashFn} {t : Template} {jobId templateId : Text}
  {s : ServerState} {addr : SocketAddr} {share : ShareSubmission}
  {key : Text} {m : Mined}

-- ============================================================== the header

/-- A template of a block: its hashes are of 32 bytes, and the end of its
window is a time. -/
structure Template.FullSized (t : Template) : Prop where
  prevBlockHash : t.prevBlockHash.length = 32
  merkleBranches : ∀ branch ∈ t.merkleBranches, branch.length = 32
  window : t.ntime.toNat + 7200 < 2 ^ 32

/-- The job holds the template's fields. -/
theorem Template.FullSized.holds (h : t.FullSized) :
    HoldsJob (createMiningJobFromTemplateObject H jobId
      (t.objectData templateId)) t.job where
  prevBlockHash := (if_pos h.prevBlockHash).symm
  coinbase1 := rfl
  coinbase2 := rfl
  merkleBranches := (List.filter_eq_self.mpr fun branch hbranch =>
    decide_eq_true (h.merkleBranches branch hbranch)).symm
  nbits := rfl

/-- Where the contract holds the job's fields it computes the header that
was mined. -/
theorem HoldsJob.header {onChain : Job} (h : HoldsJob m.job onChain) :
    onChain.header H m.submission = m.header H := by
  have hcoinbase : onChain.coinbase m.submission
      = m.job.coinbase1 ++ m.extranonce ++ m.job.coinbase2 := by
    rw [Job.coinbase, h.coinbase1, h.coinbase2]
    show m.job.coinbase1 ++ m.extranonce1 ++ m.extranonce2
      ++ m.job.coinbase2 = _
    rw [Mined.extranonce, List.append_assoc m.job.coinbase1]
  rw [Job.header, hcoinbase, h.prevBlockHash, h.merkleBranches, h.nbits]
  simp only [u32Le_eq_leBytes]
  rfl

-- ========================================================== the difficulty

/-- The contract's difficulty is the server's, but for the cap. -/
theorem contract_difficulty {hash : Bytes32}
    (hread : hash.nat = 0 ∨ 2 ^ 64 ≤ hash.nat) {floor : U64}
    (hcap : floor ≤ Const.maxDifficulty)
    (hserver : floor ≤ calculateDifficultyFromHash hash) :
    ∃ d, difficultyFromHash hash.toList = .ok d ∧ floor ≤ d
      ∧ d.toNat ≤ 1_000_000_000_000_000 := by
  obtain ⟨d, hd, hval⟩ := difficultyFromHash_server hread
  have hmax : floor.toNat ≤ 1_000_000_000_000_000 := hcap
  rw [BitVec.le_def] at hserver
  refine ⟨d, hd, ?_, by rw [hval]; exact clampDifficulty_le _⟩
  rw [BitVec.le_def, hval, clampDifficulty]
  split
  case isTrue hz => omega
  case isFalse => omega

-- ================================================================ the time

/-- Below the upper bound of the window its lower one decides. -/
theorem ntimeInWindow_iff {base ntime : U32}
    (hwindow : base.toNat + 7200 < 2 ^ 32)
    (hupper : ntime.toNat ≤ base.toNat + 7200) :
    ntimeInWindow base ntime = .ok true
      ↔ base.toNat - 7200 ≤ ntime.toNat := by
  have hmax : Const.maxNtimeOffsetSeconds.toNat = 7200 := rfl
  obtain ⟨top, htop, hval⟩ := add_of_lt Abort.arithmetic (a := base)
    (b := Const.maxNtimeOffsetSeconds) (by rw [hmax]; exact hwindow)
  have hmin : (if Const.maxNtimeOffsetSeconds < base
      then base - Const.maxNtimeOffsetSeconds else 0).toNat
      = base.toNat - 7200 := by
    split
    case isTrue hlt =>
        rw [BitVec.toNat_sub_of_le (BitVec.le_of_lt hlt), hmax]
    case isFalse hge =>
        have hle := BitVec.le_def.mp (BitVec.not_lt.mp hge)
        show 0 = _
        omega
  unfold ntimeInWindow
  dsimp only
  generalize (if Const.maxNtimeOffsetSeconds < base
    then base - Const.maxNtimeOffsetSeconds else 0) = minNtime at hmin ⊢
  rw [← hmin, ← BitVec.le_def]
  by_cases hle : minNtime ≤ ntime
  · rw [if_pos hle]
    refine iff_of_true (bind_eq_ok.mpr ⟨top, htop, ?_⟩) hle
    apply congrArg Except.ok
    rw [decide_eq_true_eq, BitVec.le_def, hval, hmax]
    exact hupper
  · rw [if_neg hle]
    refine iff_of_false (fun h => ?_) hle
    cases h

-- ============================================================= the version

/-- Outside the mask the version is the template's. -/
theorem rolled_outside_mask (version vbits mask : U32) :
    ((((version &&& ~~~mask) ||| (vbits &&& mask)) ^^^ version)
      &&& (0xFFFFFFFF ^^^ mask)) = 0 := by
  have hall : (0xFFFFFFFF : U32) = BitVec.allOnes 32 := rfl
  rw [hall, BitVec.allOnes_xor]
  ext i
  simp
  cases version[i] <;> cases mask[i] <;> simp

-- ============================================================== the server

/-- What the server has checked of a share it took. -/
structure ServerChecked (s : ServerState) (H : HashFn) (addr : SocketAddr)
    (share : ShareSubmission) (m : Mined) : Prop where
  job : s.jobs.lookup share.jobId = some m.job
  difficulty : ∃ miner, s.miners addr = some miner
    ∧ miner.difficulty ≤ calculateDifficultyFromHash (m.shareHash H)
  upper : m.ntime.setWidth 64 ≤ m.job.curtime + 7200
  version : ∃ vbits, m.version
    = (m.job.version &&& ~~~Const.versionRollingMask)
      ||| (vbits &&& Const.versionRollingMask)

theorem serverChecked_of_judge
    (h : s.judge H addr share = .accepted key m) :
    ServerChecked s H addr share m := by
  obtain ⟨c, hlook, hbuild, -, -, hworth⟩ := judge_accepted_ok h
  simp only [ServerState.look, bind_eq_ok, require_eq_ok, fetch_eq_ok,
    pure_eq_ok] at hlook
  obtain ⟨_, -, job, hjob, miner, hminer, ntime, -, -, -, -, hupper, -, -,
    rfl⟩ := hlook
  simp only [Candidate.build, bind_eq_ok, fetch_eq_ok, pure_eq_ok] at hbuild
  obtain ⟨en1, -, en2, -, nonce, -, rfl⟩ := hbuild
  refine ⟨hjob, ⟨miner, hminer, hworth⟩, hupper, ?_⟩
  cases share.versionBits with
  | none => exact ⟨job.version, (split_by_mask job.version _).symm⟩
  | some vbits => exact ⟨vbits, rfl⟩

/-- A share the server takes is the one that was judged. -/
theorem judge_of_validate {cfg : Config} {newDiff : Option U64}
    (h : (validateAndSubmitShare H cfg s addr share).2 = .ok (true, newDiff))
    (hmined : s.mined addr share = .ok m) :
    ∃ key, s.judge H addr share = .accepted key m := by
  unfold validateAndSubmitShare at h
  split at h
  case h_1 => cases h
  case h_2 => cases h
  case h_3 => cases h
  case h_4 key m' hjudge =>
      have heq := judge_accepted hjudge
      rw [hmined] at heq
      injection heq with heq
      rw [heq]
      exact ⟨key, hjudge⟩

-- ============================================================= the contract

/-- What the contract computes of a share, where the server took it. -/
structure AgreesOn (H : HashFn) (job : Job) (m : Mined) : Prop where
  header : job.header H m.submission = m.header H
  version : (m.version ^^^ job.version)
    &&& (0xFFFFFFFF ^^^ Const.versionRollingMask) = 0
  worth : ∃ d, difficultyFromHash (job.shareHash H m.submission) = .ok d
    ∧ job.minDifficulty ≤ d ∧ d.toNat ≤ 1_000_000_000_000_000
  upper : m.ntime.toNat ≤ job.ntime.toNat + 7200

/-- A miner's own objects for the job's round, with room in the counters
a share of any difficulty adds to. -/
structure MinerObjects.OwnFor (o : MinerObjects) (job : Job)
    (sender : Address) : Prop where
  mine : o.stats.miner = sender
  table_mine : o.dedup.miner = sender
  table_round : o.dedup.roundId = job.roundId
  stats_round : o.round.roundId = job.roundId
  stats_mine : o.round.miner = o.stats.miner
  table_room : o.dedup.count.toNat + 1 < 2 ^ 32
  total_room : o.stats.totalShares.toNat + 1 < 2 ^ 64
  blocks_room : o.stats.blocksFound.toNat + 1 < 2 ^ 64
  work_room : o.round.work.toNat + 1_000_000_000_000_000 < 2 ^ 128
  shares_room : o.round.shares.toNat + 1 < 2 ^ 64

theorem agreesOn_of_checked (hsize : t.FullSized)
    (hcap : t.minDifficulty ≤ Const.maxDifficulty)
    (hjob : s.jobs.lookup share.jobId
      = some (createMiningJobFromTemplateObject H jobId
          (t.objectData templateId)))
    (hchecked : ServerChecked s H addr share m)
    (hfloor : ∀ miner, s.miners addr = some miner →
      t.minDifficulty ≤ miner.difficulty)
    (hread : (m.shareHash H).nat = 0 ∨ 2 ^ 64 ≤ (m.shareHash H).nat) :
    AgreesOn H t.job m := by
  have hmjob := hchecked.job
  rw [hjob] at hmjob
  injection hmjob with hmjob
  have hholds : HoldsJob m.job t.job := hmjob ▸ hsize.holds
  refine ⟨hholds.header, ?_, ?_, ?_⟩
  · obtain ⟨vbits, hversion⟩ := hchecked.version
    rw [hversion, ← hmjob]
    exact rolled_outside_mask t.version vbits Const.versionRollingMask
  · obtain ⟨miner, hminer, hworth⟩ := hchecked.difficulty
    obtain ⟨d, hd, hmin, hmax⟩ := contract_difficulty hread hcap
      (BitVec.le_trans (hfloor miner hminer) hworth)
    refine ⟨d, ?_, hmin, hmax⟩
    rw [Job.shareHash, hholds.header]
    exact hd
  · have hupper := hchecked.upper
    rw [← hmjob] at hupper
    have hle := BitVec.le_def.mp hupper
    have hwindow := hsize.window
    show m.ntime.toNat ≤ t.ntime.toNat + 7200
    change _ ≤ (t.ntime.setWidth 64 + 7200 : U64).toNat at hle
    rw [BitVec.toNat_add, BitVec.toNat_setWidth, BitVec.toNat_setWidth]
      at hle
    have hsmall : m.ntime.toNat < 2 ^ 32 := m.ntime.isLt
    have hconst : (7200 : U64).toNat = 7200 := rfl
    rw [hconst] at hle
    omega

theorem AgreesOn.submittable {job : Job} {o : MinerObjects}
    {ctx : TxContext} (h : AgreesOn H job m)
    (hown : o.OwnFor job ctx.sender)
    (hfresh : job.shareHash H m.submission ∉ o.dedup.hashes)
    (htime : ntimeInWindow job.ntime m.ntime = .ok true) :
    ∃ d, Submittable H job o m.submission ctx d := by
  obtain ⟨d, hd, hmin, hmax⟩ := h.worth
  have hroom := hown.work_room
  exact ⟨d, {
    mine := hown.mine
    table_mine := hown.table_mine
    table_round := hown.table_round
    stats_round := hown.stats_round
    stats_mine := hown.stats_mine
    version := h.version
    ntime := htime
    worth := hd
    enough := hmin
    fresh := hfresh
    table_room := hown.table_room
    total_room := hown.total_room
    blocks_room := hown.blocks_room
    work_room := by omega
    shares_room := hown.shares_room }⟩

/-- A call that succeeds found the time in its window. -/
theorem ntimeInWindow_of_submitShare {w w' : World} {tid : ID}
    {t : TemplateObject} {ids : ShareIds} {sub : Submission}
    (ht : w.mining.templates.get tid = some t)
    (hok : w.exec H (.mining (.submitShare tid ids sub)) = .ok w') :
    ntimeInWindow t.template.ntime sub.ntime = .ok true := by
  simp only [World.exec, Mining.exec, Mining.submitShare, submitShare,
    validateShareAgainstTemplate, bind_eq_ok, load_eq_ok] at hok
  obtain ⟨_, ⟨t', ht', o, -, _, ⟨⟨o', v⟩, hval, -⟩, -⟩, -⟩ := hok
  rw [ht] at ht'
  cases ht'
  exact (validateShare_ok hval).ntime_ok

-- =============================================================== the result

/-- On the job of a template, what the pooled server takes has in the
contract the header it was mined as, a version within the mask, a
difficulty that is enough and a time that is not too late, and is
accepted iff it is not too early. -/
theorem pooled_share_passes {cfg : Config} {newDiff : Option U64}
    {publisher : Address} {w : World}
    (h : Machine.Reach (contract H publisher) w) {tid : ID}
    {t : TemplateObject} (ht : w.mining.templates.get tid = some t)
    (hsize : t.template.FullSized)
    (hjob : s.jobs.lookup share.jobId
      = some (createMiningJobFromTemplateObject H jobId
          (t.template.objectData templateId)))
    (haccepted : (validateAndSubmitShare H cfg s addr share).2
      = .ok (true, newDiff))
    (hmined : s.mined addr share = .ok m)
    (hfloor : ∀ miner, s.miners addr = some miner →
      t.template.minDifficulty ≤ miner.difficulty)
    (hread : (m.shareHash H).nat = 0 ∨ 2 ^ 64 ≤ (m.shareHash H).nat) :
    AgreesOn H t.template.job m
      ∧ ∀ ids o, w.mining.minerObjects ids = .ok o →
        o.OwnFor t.template.job w.ctx.sender →
        t.template.job.shareHash H m.submission ∉ o.dedup.hashes →
        o.round.minHeight ≤ t.template.height →
        ((∃ w', w.exec H (.mining (.submitShare tid ids m.submission))
            = .ok w')
          ↔ t.template.ntime.toNat - 7200 ≤ m.ntime.toNat) := by
  obtain ⟨key, hjudge⟩ := judge_of_validate haccepted hmined
  have honChain : w.mining.job (.direct tid) = some t.template.job :=
    Option.map_eq_some_iff.mpr ⟨t, ht, rfl⟩
  have hrated := rated_of_reach h honChain
  have hagrees := agreesOn_of_checked hsize hrated.floor_le hjob
    (serverChecked_of_judge hjudge) hfloor hread
  refine ⟨hagrees, fun ids o ho hown hfresh hheight => ?_⟩
  rw [← ntimeInWindow_iff hsize.window hagrees.upper]
  constructor
  · rintro ⟨w', hok⟩
    exact ntimeInWindow_of_submitShare ht hok
  · intro htime
    obtain ⟨d, hsub⟩ := hagrees.submittable hown hfresh htime
    exact (World.submitShare_iff ht ho hsub).mpr hheight

-- ================================================================== runs

instance : Decidable t.FullSized :=
  decidable_of_iff (t.prevBlockHash.length = 32
      ∧ (∀ branch ∈ t.merkleBranches, branch.length = 32)
      ∧ t.ntime.toNat + 7200 < 2 ^ 32)
    ⟨fun ⟨h₁, h₂, h₃⟩ => ⟨h₁, h₂, h₃⟩, fun h => ⟨h.1, h.2, h.3⟩⟩

instance {o : MinerObjects} {job : Job} {sender : Address} :
    Decidable (o.OwnFor job sender) :=
  decidable_of_iff ((o.stats.miner = sender ∧ o.dedup.miner = sender
        ∧ o.dedup.roundId = job.roundId ∧ o.round.roundId = job.roundId
        ∧ o.round.miner = o.stats.miner)
      ∧ o.dedup.count.toNat + 1 < 2 ^ 32
      ∧ o.stats.totalShares.toNat + 1 < 2 ^ 64
      ∧ o.stats.blocksFound.toNat + 1 < 2 ^ 64
      ∧ o.round.work.toNat + 1_000_000_000_000_000 < 2 ^ 128
      ∧ o.round.shares.toNat + 1 < 2 ^ 64)
    ⟨fun ⟨⟨h₁, h₂, h₃, h₄, h₅⟩, h₆, h₇, h₈, h₉, h₁₀⟩ =>
      ⟨h₁, h₂, h₃, h₄, h₅, h₆, h₇, h₈, h₉, h₁₀⟩,
    fun h => ⟨⟨h.1, h.2, h.3, h.4, h.5⟩, h.6, h.7, h.8, h.9, h.10⟩⟩

/-- The solved header's template with room for an extranonce in its
coinbase, registered with its time so many seconds ahead. -/
def roomyTemplate (ahead : U32) : TemplateArgs :=
  let coinbase := block125552.coinbase1 ++ block125552.coinbase2
  { block125552 with
    coinbase1 := coinbase.take 32
    coinbase2 := coinbase.drop 44
    ntime := block125552.ntime + ahead }

/-- A miner has its objects for the template's round. -/
def roomyRun (ahead : U32) : List Call :=
  [.admin (.registerTemplate (roomyTemplate ahead)),
   .beginTx 1 0 0,
   .mining (.registerMiner []),
   .mining (.createRoundStats 0 0),
   .mining (.createShareDedup 0)]

def pooledConfig : Config :=
  { poolAddressScript := [], solo := false, minerBatchSize := 1,
    initialDifficulty := 1_000_000 }

/-- The pooled server with the template's job, and a miner connected. -/
def pooledServer (t : Template) : ServerState :=
  let s := { ServerState.init pooledConfig with
    jobs := [(jobIdOf 1, createMiningJobFromTemplateObject sha256
      (jobIdOf 1) (t.objectData "0xa1".toList))] }
  s.setMiner 0 (some (connected s 0x5e996cc3))

/-- The share that solves the header. -/
def solvedShare : ShareSubmission :=
  parseSubmitParams (["rig1", "00000001", "307b11be5acab562", "4dd7f5c7",
    "9546a142"].map fun s => .string s.toList)

/-- The server takes the share, and the miner is ready to submit it. -/
structure TakenAhead (ahead : U32) (w : World) (t : TemplateObject)
    (o : MinerObjects) (m : Mined) : Prop where
  reach : Machine.Reach (contract sha256 0) w
  template : w.mining.templates.get 0 = some t
  in_round : t.template.roundId = w.mining.pool.currentRound
  sized : t.template.FullSized
  accepted : (validateAndSubmitShare sha256 pooledConfig
    (pooledServer t.template) 0 solvedShare).2 = .ok (true, none)
  mined : (pooledServer t.template).mined 0 solvedShare = .ok m
  floor : t.template.minDifficulty ≤ 1_000_000
  readable : 2 ^ 64 ≤ (m.shareHash sha256).nat
  objects : w.mining.minerObjects ⟨0, 0, 0⟩ = .ok o
  own : o.OwnFor t.template.job w.ctx.sender
  fresh : t.template.job.shareHash sha256 m.submission ∉ o.dedup.hashes
  height : o.round.minHeight ≤ t.template.height

def takenAhead (ahead : U32) (check : TemplateObject → Mined → Bool) :
    Bool :=
  (contract sha256 0).endsIn (roomyRun ahead) fun w =>
    (w.mining.templates.get 0).any fun t =>
      (w.mining.minerObjects ⟨0, 0, 0⟩).toOption.any fun o =>
        ((pooledServer t.template).mined 0 solvedShare).toOption.any
          fun m => check t m && decide (
            t.template.roundId = w.mining.pool.currentRound
            ∧ t.template.FullSized
            ∧ (validateAndSubmitShare sha256 pooledConfig
                (pooledServer t.template) 0 solvedShare).2.toOption
              = some (true, none)
            ∧ t.template.minDifficulty ≤ 1_000_000
            ∧ 2 ^ 64 ≤ (m.shareHash sha256).nat
            ∧ o.OwnFor t.template.job w.ctx.sender
            ∧ t.template.job.shareHash sha256 m.submission ∉ o.dedup.hashes
            ∧ o.round.minHeight ≤ t.template.height)

theorem takenAhead_of_run {ahead : U32}
    {check : TemplateObject → Mined → Bool}
    (h : takenAhead ahead check = true) :
    ∃ w t o m, TakenAhead ahead w t o m ∧ check t m = true := by
  obtain ⟨w, hw, h⟩ := Machine.reach_of_endsIn h
  obtain ⟨t, ht, h⟩ := (Option.any_eq_true ..).mp h
  obtain ⟨o, ho, h⟩ := (Option.any_eq_true ..).mp h
  obtain ⟨m, hm, h⟩ := (Option.any_eq_true ..).mp h
  rw [Bool.and_eq_true] at h
  obtain ⟨hround, hsized, hacc, hfloor, hread, hown, hfresh, hheight⟩ :=
    of_decide_eq_true h.2
  refine ⟨w, t, o, m, ?_, h.1⟩
  exact {
    reach := hw
    template := ht
    in_round := hround
    sized := hsized
    accepted := toOption_eq_some.mp hacc
    mined := toOption_eq_some.mp hm
    floor := hfloor
    readable := hread
    objects := toOption_eq_some.mp ho
    own := hown
    fresh := hfresh
    height := hheight }

/-- On a template of its own time the share passes both. -/
theorem pooled_share_passes_onTime :
    ∃ w t o m w', TakenAhead 0 w t o m ∧ AgreesOn sha256 t.template.job m
      ∧ w.exec sha256 (.mining (.submitShare 0 ⟨0, 0, 0⟩ m.submission))
        = .ok w' := by
  have hrun : takenAhead 0 (fun t m =>
      t.template.ntime.toNat - 7200 ≤ m.ntime.toNat) = true := by
    decide +kernel
  obtain ⟨w, t, o, m, htaken, htime⟩ := takenAhead_of_run hrun
  obtain ⟨hagrees, hcall⟩ := pooled_share_passes htaken.reach
    htaken.template htaken.sized rfl htaken.accepted htaken.mined
    (fun miner hminer => by
      cases hminer
      exact htaken.floor)
    (.inr htaken.readable)
  obtain ⟨w', hok⟩ := (hcall _ o htaken.objects htaken.own htaken.fresh
    htaken.height).mpr (of_decide_eq_true htime)
  exact ⟨w, t, o, m, w', htaken, hagrees, hok⟩

/-- On a template ten thousand seconds ahead of it the server takes it
all the same, and the contract does not. -/
theorem pooled_share_refused :
    ∃ w t o m, TakenAhead 10_000 w t o m
      ∧ ∀ w', w.exec sha256 (.mining (.submitShare 0 ⟨0, 0, 0⟩
        m.submission)) ≠ .ok w' := by
  have hrun : takenAhead 10_000 (fun t m =>
      (ntimeInWindow t.template.ntime m.ntime).toOption = some false)
      = true := by
    decide +kernel
  obtain ⟨w, t, o, m, htaken, htime⟩ := takenAhead_of_run hrun
  have htime := toOption_eq_some.mp (of_decide_eq_true htime)
  refine ⟨w, t, o, m, htaken, fun w' hok => ?_⟩
  have hin := ntimeInWindow_of_submitShare htaken.template hok
  rw [show m.submission.ntime = m.ntime from rfl, htime] at hin
  cases hin

end M1n3Protocol
