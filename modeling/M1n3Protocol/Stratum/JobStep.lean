/-
What an event does to the stratum server's jobs, and where a published
job comes from.

# One inversion

Of all events only three reach the jobs: a template polled, the flusher's
answer, and a registration. `JobStep` says all they do. Everything else
leaves the current job, the table and the updater alone.

# Two templates

A job takes its tip from the template of the last new block and its
coinbase and branches from the template polled last (`BuiltFrom`). In a
job made on the new block path the two are one. In a refreshed job nothing
in the loop makes them agree; `jobs_built` carries whatever relation `R`
between the two each refresh that is published has shown.
-/
import M1n3Protocol.Stratum.Server

namespace M1n3Protocol

variable {H : HashFn} {cfg : Config} {s s' : ServerState}

-- ============================================================== the frame

/-- The part of the state that jobs live in. -/
def ServerState.work (s : ServerState) :
    Option MiningJob × List (Text × MiningJob) × Updater :=
  (s.currentJob, s.jobs, s.updater)

theorem ServerState.work_eq {job : Option MiningJob}
    {jobs : List (Text × MiningJob)} {updater : Updater} :
    s.work = (job, jobs, updater)
      ↔ s.currentJob = job ∧ s.jobs = jobs ∧ s.updater = updater := by
  rw [work, Prod.mk.injEq, Prod.mk.injEq]

@[simp] theorem ServerState.send_work (msg : BatchMsg) :
    (s.send cfg msg).work = s.work := by
  unfold send
  split <;> rfl

@[simp] theorem ServerState.flush_work : s.flush.work = s.work := by
  unfold flush
  split <;> rfl

@[simp] theorem ServerState.noteBlock_work (m : Mined) :
    (s.noteBlock H m).work = s.work := by
  unfold noteBlock
  split <;> rfl

@[simp] theorem ServerState.queueShare_work (m : Mined) :
    (s.queueShare cfg m).work = s.work := by
  unfold queueShare
  split
  case h_1 => exact send_work _
  case h_2 => rfl

@[simp] theorem ServerState.credit_work (addr : SocketAddr) :
    (s.credit addr).1.work = s.work := by
  unfold credit
  split <;> rfl

@[simp] theorem validate_work (addr : SocketAddr) (share : ShareSubmission) :
    (validateAndSubmitShare H cfg s addr share).1.work = s.work := by
  unfold validateAndSubmitShare
  split
  case h_1 => rfl
  case h_2 => rfl
  case h_3 key m _ => exact ServerState.noteBlock_work m
  case h_4 key m _ =>
      rw [ServerState.credit_work, ServerState.queueShare_work,
        ServerState.noteBlock_work]
      rfl

-- ========================================================== the inversion

/-- What an event does to the jobs. -/
inductive JobStep (H : HashFn) (cfg : Config) (s : ServerState) :
    Event → ServerState → Prop
  | quiet {c : Event} {s' : ServerState} (hwork : s'.work = s.work) :
      JobStep H cfg s c s'
  | refreshing {t : BlockTemplate} {due : Bool} {s' : ServerState}
      {job : MiningJob} {coinbase1 coinbase2 : Bytes}
      (hidle : s.updater = .polling) (hjob : s.currentJob = some job)
      (hcoinbase : createCoinbase t cfg.poolAddressScript
        = some (coinbase1, coinbase2))
      (hcurrent : s'.currentJob = s.currentJob) (hjobs : s'.jobs = s.jobs)
      (hupdater : ∃ jobId, s'.updater = .flushing
          (job.refreshed H jobId coinbase1 coinbase2 t) job.suiTemplateId
        ∨ s'.updater = .registeringRefresh
          (job.refreshed H jobId coinbase1 coinbase2 t) job.suiTemplateId) :
      JobStep H cfg s (.poll (some t) due) s'
  | building {t : BlockTemplate} {due : Bool} {s' : ServerState}
      {job : MiningJob} {n : Nat} (hidle : s.updater = .polling)
      (hnew : createNewJobFromTemplate H cfg.poolAddressScript n t
        = some job)
      (hwork : s'.work = (s.currentJob, s.jobs, .registeringBlock job)) :
      JobStep H cfg s (.poll (some t) due) s'
  | answered {s' : ServerState} {job : MiningJob} {old : Option Text}
      (hwait : s.updater = .flushing job old)
      (hwork : s'.work
        = (s.currentJob, s.jobs, .registeringRefresh job old)) :
      JobStep H cfg s .recv s'
  | published {s' : ServerState} {job : MiningJob} {tpda : Text}
      (hwait : (∃ old, s.updater = .registeringRefresh job old)
        ∨ s.updater = .registeringBlock job)
      (hwork : s'.work = (some { job with suiTemplateId := some tpda },
        insertJob s.jobs { job with suiTemplateId := some tpda },
        .polling)) :
      JobStep H cfg s (.registered (some tpda)) s'
  | dropped {s' : ServerState}
      (hwork : s'.work = (s.currentJob, s.jobs, .polling)) :
      JobStep H cfg s (.registered none) s'

theorem refresh_jobs {t : BlockTemplate} {due : Bool}
    (hidle : s.updater = .polling) :
    JobStep H cfg s (.poll (some t) due) (s.refresh H cfg t due) := by
  unfold ServerState.refresh
  dsimp only
  split
  case isTrue => exact .quiet rfl
  case isFalse =>
      split
      case h_1 => exact .quiet rfl
      case h_2 coinbase1 coinbase2 hcb =>
          split
          case h_1 => exact .quiet rfl
          case h_2 job hjob =>
              split
              case isTrue =>
                  unfold ServerState.send
                  split <;>
                    exact .refreshing hidle hjob hcb rfl rfl ⟨_, .inl rfl⟩
              case isFalse =>
                  exact .refreshing hidle hjob hcb rfl rfl ⟨_, .inr rfl⟩

theorem newBlock_jobs {t : BlockTemplate} {due : Bool}
    (hidle : s.updater = .polling) :
    JobStep H cfg s (.poll (some t) due) (s.newBlock H cfg t) := by
  unfold ServerState.newBlock
  dsimp only
  split
  case h_1 => exact .quiet rfl
  case h_2 job hnew =>
      refine .building hidle hnew ?_
      unfold ServerState.send
      split <;> rfl

theorem poll_jobs {t : BlockTemplate} {due : Bool}
    (hidle : s.updater = .polling) :
    JobStep H cfg s (.poll (some t) due) (s.poll H cfg t due) := by
  unfold ServerState.poll
  split
  case h_1 => exact .quiet rfl
  case h_2 =>
      split
      case isTrue => exact refresh_jobs hidle
      case isFalse => exact newBlock_jobs hidle

theorem registered_jobs {tpda : Option Text}
    (hs : s.registered tpda = .ok s') :
    JobStep H cfg s (.registered tpda) s' := by
  unfold ServerState.registered at hs
  split at hs
  case h_1 job old tpda hwait =>
      cases hs
      exact .published (.inl ⟨old, hwait⟩) rfl
  case h_2 job tpda hwait =>
      cases hs
      exact .published (.inr hwait) rfl
  case h_3 =>
      cases hs
      exact .dropped rfl
  case h_4 =>
      cases hs
      exact .dropped rfl
  case h_5 => cases hs

theorem recv_jobs (hs : s.recv cfg = .ok s') :
    JobStep H cfg s .recv s' := by
  unfold ServerState.recv at hs
  split at hs
  case h_1 => cases hs
  case h_2 =>
      cases hs
      exact .quiet (ServerState.flush_work.trans rfl)
  case h_3 rest hmsg =>
      cases hs
      have hflush := ServerState.flush_work (s := { s with minerTx := rest })
      unfold ServerState.answer
      split
      case h_1 job old hwait =>
          obtain ⟨hcurrent, hjobs, hupdater⟩ := ServerState.work_eq.mp hflush
          exact .answered (hupdater.symm.trans hwait)
            (ServerState.work_eq.mpr ⟨hcurrent, hjobs, rfl⟩)
      case h_2 => exact .quiet (hflush.trans rfl)
  case h_4 =>
      cases hs
      dsimp only
      split
      case isTrue => exact .quiet (ServerState.flush_work.trans rfl)
      case isFalse => exact .quiet rfl

/-- A template is polled only where nothing else is waited for, and where
none could be had nothing changes. -/
theorem poll_ok {template : Option BlockTemplate} {due : Bool}
    (hs : s.step H cfg (.poll template due) = .ok s') :
    s.updater = .polling
      ∧ (s' = s ∨ ∃ t, template = some t ∧ s' = s.poll H cfg t due) := by
  rw [ServerState.step] at hs
  split at hs
  case h_1 hidle =>
      refine ⟨hidle, ?_⟩
      cases template with
      | none =>
          cases hs
          exact .inl rfl
      | some t =>
          cases hs
          exact .inr ⟨t, rfl, rfl⟩
  case h_2 => cases hs

theorem step_jobs {c : Event} (hs : s.step H cfg c = .ok s') :
    JobStep H cfg s c s' := by
  cases c with
  | poll template due =>
      obtain ⟨hidle, rfl | ⟨t, rfl, rfl⟩⟩ := poll_ok hs
      · exact .quiet rfl
      · exact poll_jobs hidle
  | registered tpda => exact registered_jobs hs
  | submit addr params =>
      cases hs
      exact .quiet (validate_work addr _)
  | recv => exact recv_jobs hs
  | tick =>
      cases hs
      exact .quiet ServerState.flush_work
  | connect | disconnect | authorize | globalDifficulty | difficultyFloor =>
      cases hs
      exact .quiet rfl

-- =========================================================== the job table

theorem mem_trimJobs {p : Text × MiningJob} :
    ∀ {n : Nat} {jobs : List (Text × MiningJob)},
      p ∈ trimJobs n jobs → p ∈ jobs := by
  intro n
  induction n with
  | zero =>
      intro jobs h
      rw [trimJobs] at h
      · exact h
      · intro _ _ _ hn
        cases hn
  | succ n ih =>
      intro jobs h
      cases jobs with
      | nil => cases h
      | cons q jobs =>
          rw [trimJobs] at h
          split at h
          case isTrue => exact (List.mem_filter.mp (ih h)).1
          case isFalse => exact h

theorem mem_insertJob {p : Text × MiningJob} {job : MiningJob}
    {jobs : List (Text × MiningJob)} (h : p ∈ insertJob jobs job) :
    p ∈ jobs ∨ p = (job.jobId, job) := by
  rcases List.mem_append.mp (mem_trimJobs h) with h | h
  · exact .inl (List.mem_filter.mp h).1
  · exact .inr (List.mem_singleton.mp h)

-- ==================================================== where jobs come from

/-- Tip and transactions from `t₀`, coinbase and branches from `t`. -/
structure BuiltFrom (H : HashFn) (cfg : Config) (job : MiningJob)
    (t₀ t : BlockTemplate) : Prop where
  prevBlockHash : t₀.prevBlockHash = some job.prevBlockHash
  height : job.height = t₀.height
  nbits : Hex.ofRadix 32 t₀.bits = some job.nbits
  hasWitnessCommitment : job.hasWitnessCommitment = t₀.hasWitnessCommitment
  transactionData :
    job.transactionData = t₀.transactions.map TemplateTransaction.data
  coinbase : createCoinbase t cfg.poolAddressScript
    = some (job.coinbase1, job.coinbase2)
  merkleBranches : job.merkleBranches = calculateMerkleBranches H t

/-- On the new block path the two are one. -/
theorem builtFrom_new {n : Nat} {t : BlockTemplate} {job : MiningJob}
    (h : createNewJobFromTemplate H cfg.poolAddressScript n t = some job) :
    BuiltFrom H cfg job t t := by
  obtain ⟨prev, hprev, h⟩ := Option.bind_eq_some_iff.mp h
  obtain ⟨⟨coinbase1, coinbase2⟩, hcb, h⟩ := Option.bind_eq_some_iff.mp h
  obtain ⟨nbits, hnbits, h⟩ := Option.bind_eq_some_iff.mp h
  cases h
  exact ⟨hprev, rfl, hnbits, rfl, rfl, hcb, rfl⟩

/-- A refresh keeps the first and replaces the second. -/
theorem BuiltFrom.refreshed {job : MiningJob} {t₀ t₁ t : BlockTemplate}
    {jobId : Text} {coinbase1 coinbase2 : Bytes}
    (h : BuiltFrom H cfg job t₀ t₁)
    (hcb : createCoinbase t cfg.poolAddressScript
      = some (coinbase1, coinbase2)) :
    BuiltFrom H cfg (job.refreshed H jobId coinbase1 coinbase2 t) t₀ t :=
  ⟨h.prevBlockHash, h.height, h.nbits, h.hasWitnessCommitment,
    h.transactionData, hcb, rfl⟩

theorem BuiltFrom.named {job : MiningJob} {t₀ t : BlockTemplate}
    (h : BuiltFrom H cfg job t₀ t) (tpda : Option Text) :
    BuiltFrom H cfg { job with suiTemplateId := tpda } t₀ t :=
  ⟨h.prevBlockHash, h.height, h.nbits, h.hasWitnessCommitment,
    h.transactionData, h.coinbase, h.merkleBranches⟩

/-- The server beside the templates it has been given, in order. -/
def templatesSeen (H : HashFn) (cfg : Config) :
    Machine Unit (ServerState × List BlockTemplate) Event :=
  (stratum H cfg).withGhost [] fun _ c _ seen =>
    match c with
    | .poll (some t) _ => seen ++ [t]
    | _ => seen

/-- Two templates seen so far that `R` relates make the job. -/
def FromSeen (H : HashFn) (cfg : Config)
    (R : BlockTemplate → BlockTemplate → Prop) (seen : List BlockTemplate)
    (job : MiningJob) : Prop :=
  ∃ t₀ ∈ seen, ∃ t ∈ seen, R t₀ t ∧ BuiltFrom H cfg job t₀ t

theorem FromSeen.later {R : BlockTemplate → BlockTemplate → Prop}
    {seen : List BlockTemplate} {job : MiningJob}
    (h : FromSeen H cfg R seen job) (more : List BlockTemplate) :
    FromSeen H cfg R (seen ++ more) job := by
  obtain ⟨t₀, ht₀, t, ht, hR, hbuilt⟩ := h
  exact ⟨t₀, List.mem_append_left more ht₀, t, List.mem_append_left more ht,
    hR, hbuilt⟩

/-- Published jobs come from two templates that `R` relates, and a job
that waits for its registration from one and the last. -/
structure JobsBuilt (H : HashFn) (cfg : Config)
    (R : BlockTemplate → BlockTemplate → Prop) (s : ServerState)
    (seen : List BlockTemplate) : Prop where
  current : ∀ job, s.currentJob = some job → FromSeen H cfg R seen job
  jobs : ∀ p ∈ s.jobs, FromSeen H cfg R seen p.2
  refresh : ∀ job old, s.updater = .flushing job old
      ∨ s.updater = .registeringRefresh job old →
    ∃ t₀ ∈ seen, ∃ t, seen.getLast? = some t ∧ BuiltFrom H cfg job t₀ t
  block : ∀ job, s.updater = .registeringBlock job →
    ∃ t ∈ seen, BuiltFrom H cfg job t t

/-- A refresh is registered only if `R` relates the template its tip is
from with the one polled last. -/
def RefreshShows (H : HashFn) (cfg : Config)
    (R : BlockTemplate → BlockTemplate → Prop)
    (p : ServerState × List BlockTemplate) (c : Event) : Prop :=
  ∀ job old tpda, p.1.updater = .registeringRefresh job old →
    c = .registered (some tpda) → ∀ t₀ t, p.2.getLast? = some t →
      BuiltFrom H cfg job t₀ t → R t₀ t

variable {R : BlockTemplate → BlockTemplate → Prop}
  {seen : List BlockTemplate}

theorem JobsBuilt.kept (h : JobsBuilt H cfg R s seen)
    (hwork : s'.work = s.work) : JobsBuilt H cfg R s' seen := by
  obtain ⟨hcurrent, hjobs, hupdater⟩ := ServerState.work_eq.mp hwork
  exact ⟨hcurrent ▸ h.current, hjobs ▸ h.jobs, hupdater ▸ h.refresh,
    hupdater ▸ h.block⟩

theorem JobsBuilt.waiting (h : JobsBuilt H cfg R s seen)
    (hcurrent : s'.currentJob = s.currentJob) (hjobs : s'.jobs = s.jobs)
    (more : List BlockTemplate)
    (hrefresh : ∀ job old, s'.updater = .flushing job old
        ∨ s'.updater = .registeringRefresh job old →
      ∃ t₀ ∈ seen ++ more, ∃ t, (seen ++ more).getLast? = some t
        ∧ BuiltFrom H cfg job t₀ t)
    (hblock : ∀ job, s'.updater = .registeringBlock job →
      ∃ t ∈ seen ++ more, BuiltFrom H cfg job t t) :
    JobsBuilt H cfg R s' (seen ++ more) where
  current job hjob := (h.current job (hcurrent ▸ hjob)).later more
  jobs p hp := (h.jobs p (hjobs ▸ hp)).later more
  refresh := hrefresh
  block := hblock

/-- Idle, the updater keeps no job of its own. -/
theorem JobsBuilt.idle (h : JobsBuilt H cfg R s seen)
    (hcurrent : s'.currentJob = s.currentJob) (hjobs : s'.jobs = s.jobs)
    (hidle : s'.updater = .polling) (more : List BlockTemplate) :
    JobsBuilt H cfg R s' (seen ++ more) := by
  refine h.waiting hcurrent hjobs more (fun job old hupd => ?_)
    fun job hupd => ?_
  · rw [hidle] at hupd
    rcases hupd with hupd | hupd <;> cases hupd
  · rw [hidle] at hupd
    cases hupd

/-- A new template in view. -/
theorem JobsBuilt.polled {t : BlockTemplate} {due : Bool}
    (h : JobsBuilt H cfg R s seen)
    (hs : s.step H cfg (.poll (some t) due) = .ok s') :
    JobsBuilt H cfg R s' (seen ++ [t]) := by
  have hidle := (poll_ok hs).1
  have hlast : (seen ++ [t]).getLast? = some t := List.getLast?_concat
  cases step_jobs hs with
  | quiet hwork =>
      obtain ⟨hcurrent, hjobs, hupdater⟩ := ServerState.work_eq.mp hwork
      exact h.idle hcurrent hjobs (hupdater.trans hidle) [t]
  | refreshing _ hjob hcb hcurrent hjobs hupdater =>
      obtain ⟨jobId, hupdater⟩ := hupdater
      obtain ⟨t₀, ht₀, t₁, -, -, hbuilt⟩ := h.current _ hjob
      refine h.waiting hcurrent hjobs [t] (fun job old hupd => ?_)
        fun job hupd => ?_
      · refine ⟨t₀, List.mem_append_left _ ht₀, t, hlast, ?_⟩
        rcases hupdater with hu | hu <;> rw [hu] at hupd <;>
          rcases hupd with hupd | hupd <;> cases hupd <;>
          exact hbuilt.refreshed hcb
      · rcases hupdater with hu | hu <;> rw [hu] at hupd <;> cases hupd
  | building _ hnew hwork =>
      obtain ⟨hcurrent, hjobs, hupdater⟩ := ServerState.work_eq.mp hwork
      refine h.waiting hcurrent hjobs [t] (fun job old hupd => ?_)
        fun job hupd => ?_
      · rw [hupdater] at hupd
        rcases hupd with hupd | hupd <;> cases hupd
      · rw [hupdater] at hupd
        cases hupd
        exact ⟨t, List.mem_append_right _ (List.mem_singleton_self t),
          builtFrom_new hnew⟩

/-- A registration that succeeds. -/
theorem JobsBuilt.published {tpda : Text} (hrefl : ∀ t, R t t)
    (h : JobsBuilt H cfg R s seen)
    (hshows : RefreshShows H cfg R (s, seen) (.registered (some tpda)))
    (hs : s.step H cfg (.registered (some tpda)) = .ok s') :
    JobsBuilt H cfg R s' seen := by
  cases step_jobs hs with
  | quiet hwork =>
      exact h.kept hwork
  | @published _ job _ hwait hwork =>
      obtain ⟨hcurrent, hjobs, hupdater⟩ := ServerState.work_eq.mp hwork
      have hfrom : FromSeen H cfg R seen
          { job with suiTemplateId := some tpda } := by
        rcases hwait with ⟨old, hwait⟩ | hwait
        · obtain ⟨t₀, ht₀, t, hlast, hbuilt⟩ := h.refresh job old (.inr hwait)
          have hR := hshows job old tpda hwait rfl t₀ t hlast hbuilt
          exact ⟨t₀, ht₀, t, List.mem_of_getLast? hlast, hR,
            hbuilt.named _⟩
        · obtain ⟨t, ht, hbuilt⟩ := h.block job hwait
          exact ⟨t, ht, t, ht, hrefl t, hbuilt.named _⟩
      refine ⟨fun j hj => ?_, fun p hp => ?_, fun j old hupd => ?_,
        fun j hupd => ?_⟩
      · rw [hcurrent] at hj
        cases hj
        exact hfrom
      · rw [hjobs] at hp
        rcases mem_insertJob hp with hp | rfl
        · exact h.jobs p hp
        · exact hfrom
      · rw [hupdater] at hupd
        rcases hupd with hupd | hupd <;> cases hupd
      · rw [hupdater] at hupd
        cases hupd

/-- Every other event. -/
theorem JobsBuilt.step {c : Event} (hrefl : ∀ t, R t t)
    (h : JobsBuilt H cfg R s seen)
    (hshows : RefreshShows H cfg R (s, seen) c)
    (hc : ∀ t due, c ≠ .poll (some t) due)
    (hs : s.step H cfg c = .ok s') : JobsBuilt H cfg R s' seen := by
  cases step_jobs hs with
  | quiet hwork => exact h.kept hwork
  | refreshing | building => exact absurd rfl (hc _ _)
  | @answered _ job old hwait hwork =>
      obtain ⟨hcurrent, hjobs, hupdater⟩ := ServerState.work_eq.mp hwork
      refine ⟨hcurrent ▸ h.current, hjobs ▸ h.jobs, fun j o hupd => ?_,
        fun j hupd => ?_⟩
      · rw [hupdater] at hupd
        rcases hupd with hupd | hupd
        · cases hupd
        · cases hupd
          exact h.refresh job old (.inl hwait)
      · rw [hupdater] at hupd
        cases hupd
  | published => exact h.published hrefl hshows hs
  | dropped hwork =>
      obtain ⟨hcurrent, hjobs, hupdater⟩ := ServerState.work_eq.mp hwork
      have hidle := h.idle hcurrent hjobs hupdater []
      rw [List.append_nil] at hidle
      exact hidle

/-- Where every refresh that is registered shows `R`, every job comes from
two templates that `R` relates. -/
theorem jobs_built {ok : ServerState × List BlockTemplate → Event → Prop}
    {p : ServerState × List BlockTemplate} (hrefl : ∀ t, R t t)
    (hok : ∀ p c, ok p c → RefreshShows H cfg R p c)
    (h : Machine.ReachVia (templatesSeen H cfg) ok p) :
    JobsBuilt H cfg R p.1 p.2 := by
  refine Machine.ReachVia.withGhost_invariant
    (I := JobsBuilt H cfg R) ?_ ?_ h
  · refine ⟨fun job hjob => ?_, fun q hq => ?_, fun job old hupd => ?_,
      fun job hupd => ?_⟩
    · cases hjob
    · cases hq
    · rcases hupd with hupd | hupd <;> cases hupd
    · cases hupd
  · intro s c s' seen _ hI hokc hs
    have hshows := hok (s, seen) c hokc
    cases c with
    | poll template due =>
        cases template with
        | none =>
            refine hI.step hrefl hshows (fun _ _ hc => ?_) hs
            cases hc
        | some t => exact hI.polled hs
    | _ =>
        refine hI.step hrefl hshows (fun _ _ hc => ?_) hs
        cases hc

end M1n3Protocol
