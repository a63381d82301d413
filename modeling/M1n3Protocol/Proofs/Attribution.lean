/-
Which round a share's work goes to.

# Two lanes, two rules

A share on a `Template` is recorded under the template's round, and the
stats object has to be of that round. A share on a `DerivedTemplate` is
recorded under whatever round the stats object passed in is of: the
derived lane is round-agnostic by design. Its template's round still
decides the table the hash goes into, and its floor the difficulty.

# The books

`ShareBooks` has the work of every stats object as the shares of its key.
`AttributedTo` ties each share to the template it was mined on, so a
share of a direct lane is under a key of its template's round.
-/
import M1n3Protocol.Proofs.Coinbase
import M1n3Protocol.Proofs.Exclusivity

namespace M1n3Protocol

open BitcoinTx Checked

variable {H : HashFn} {ctx : TxContext} {m m' : Mining}

/-- What the template a share was mined on says of the share. -/
structure AttributedTo (e : ShareEntry) (job : Job) : Prop where
  min_le : job.minDifficulty ≤ e.difficulty
  round : ∀ id, e.mined = .direct id → e.roundId = job.roundId

theorem Mining.Step.job_kept {ev : MiningEvent}
    (hs : Mining.Step H ctx m ev m') {ref : TemplateRef} {job : Job}
    (hjob : m.job ref = some job) : m'.job ref = some job := by
  obtain ⟨ht, hd⟩ := hs.templates_kept
  cases ref with
  | direct id =>
      obtain ⟨t, hget, rfl⟩ := Option.map_eq_some_iff.mp hjob
      exact job_direct (ht id t hget)
  | derived id =>
      obtain ⟨d, hget, rfl⟩ := Option.map_eq_some_iff.mp hjob
      exact job_derived (hd id d hget)

/-- Under a direct template the stats object is of its round. -/
theorem Mining.Shared.direct_round {mined : TemplateRef} {ids : ShareIds}
    {sub : Submission} {payment : Option Payment} {job : Job}
    {o : MinerObjects} {out : ShareOutcome}
    {receipts : ObjStore ReceiptObject}
    (h : m.Shared H ctx mined ids sub payment job o out receipts) {id : ID}
    (hdirect : mined = .direct id) : o.round.roundId = job.roundId := by
  obtain ⟨hround, -⟩ := recordShare_ok h.accepted.record_ok
  rw [hdirect] at hround
  exact hround

def Mining.Attributed (m : Mining) : Prop :=
  ∀ i e, m.shares.get i = some e →
    ∃ job, m.job e.mined = some job ∧ AttributedTo e job

theorem Mining.Attributed.step {ev : MiningEvent} (hb : m.Attributed)
    (hs : Mining.Step H ctx m ev m') : m'.Attributed := by
  intro i e hi
  rcases hs.share_from hi with ⟨e₀, he₀, heq, -⟩
    | ⟨mined, ids, sub, payment, job, o, out, receipts, -, h, -, rfl⟩
  · obtain ⟨job, hjob, hto⟩ := hb i e₀ he₀
    rw [heq]
    exact ⟨job, hs.job_kept hjob, hto.min_le, hto.round⟩
  · obtain ⟨-, -, -, -, hround, -⟩ := recordShare_ok h.accepted.record_ok
    refine ⟨job, hs.job_kept h.job_eq, h.accepted.min_le, fun id hid => ?_⟩
    exact hround.trans (h.direct_round hid)

theorem attributed_of_reach {publisher : Address} {w : World}
    (h : Machine.Reach (contract H publisher) w) : w.mining.Attributed :=
  mining_invariant_always (fun _ _ hi => by cases hi)
    (fun _ _ _ _ hb hs => hb.step hs) h

-- ============================================================ one share

/-- One accepted share: checked against the floor of its template and the
sender's table of the template's round, and added to the sender's stats
object passed in, and to no other. -/
structure Recorded (w w' : World) (mined : TemplateRef) (ids : ShareIds)
    (job : Job) (mrs mrs' : MinerRoundStats) (table : ShareDedup)
    (difficulty : U64) : Prop where
  job_eq : w.mining.job mined = some job
  round_get : w.mining.roundStats.get ids.round = some mrs
  dedup_get : w.mining.dedups.get ids.dedup = some table
  mine : mrs.miner = w.ctx.sender
  table_mine : table.miner = w.ctx.sender
  table_round : table.roundId = job.roundId
  min_le : job.minDifficulty ≤ difficulty
  direct_round : ∀ id, mined = .direct id → mrs.roundId = job.roundId
  key_eq : mrs'.key = mrs.key
  work_eq : mrs'.work.toNat = mrs.work.toNat + difficulty.toNat
  only : w'.mining.roundStats = w.mining.roundStats.put ids.round mrs'

theorem World.exec_recorded {w w' : World} {c : Call} {mined : TemplateRef}
    {ids : ShareIds} {sub : Submission} (hs : w.exec H c = .ok w')
    (hc : c.events = [.share mined ids sub]) :
    ∃ job mrs mrs' table difficulty,
      Recorded w w' mined ids job mrs mrs' table difficulty := by
  have htrace := World.exec_mining hs
  rw [hc] at htrace
  generalize hm : w'.mining = after at htrace
  cases htrace.of_single with
  | @share _ _ _ payment job o out receipts h =>
      have hacc := h.accepted
      obtain ⟨-, hminer, -, -, hround', hminer', hwork, -⟩ :=
        recordShare_ok hacc.record_ok
      refine ⟨job, o.round, out.objects.round, o.dedup,
        out.share.difficulty, ?_⟩
      exact {
        job_eq := h.job_eq
        round_get := h.round_get
        dedup_get := h.dedup_get
        mine := hminer.trans hacc.stats_miner
        table_mine := hacc.dedup_miner
        table_round := hacc.dedup_round
        min_le := hacc.min_le
        direct_round := fun id hid => h.direct_round hid
        key_eq := by
          rw [MinerRoundStats.key, hminer', hround']
          rfl
        work_eq := hwork
        only := by rw [hm]; rfl }

/-- A template whose tail starts at the output count, and a derived tail
with one more output. -/
def countedBlock : TemplateArgs :=
  { block125552 with
    coinbase2 := [1] ++ TxOut.codec.write payBuyer ++ [0, 0, 0, 0] }

def derivedTail : Bytes :=
  [2] ++ TxOut.codec.write payBuyer ++ TxOut.codec.write payMiner
    ++ [0, 0, 0, 0]

/-- In round 0, a share on a derived template of that round goes into a
stats object the miner made for round 1. -/
def roundAhead : List Call :=
  [.admin (.registerTemplate countedBlock),
   .mining (.registerDerivedTemplatePublic 0 10_000_000
     block125552.coinbase1 derivedTail block125552.ntime),
   .order (.placeHashpowerOrder 0 100_000_000_000 1 none false),
   .beginTx 1 0 0,
   .mining (.registerMiner []),
   .mining (.createRoundStats 1 0),
   .mining (.createShareDedup 0),
   .pay (.submitShareForPayDerived 0 0 ⟨0, 0, 0⟩ solution125552)]

end M1n3Protocol
