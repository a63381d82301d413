/-
Share dedup: no header hash is credited twice under one (miner, round)
key, as long as the dedup table outlives what it protects.

# The invariant

`kept` ties the two object life cycles together: while the stats object
of a key is live, every share recorded under the key has its hash in the
key's dedup table. Both objects of a key are made once, so the table a
later submission is checked against is that same table.

# Where it breaks

`close_share_dedup` may drop hashes while the stats object is live, and
the derived lanes check the table of the template's round but record
into whatever round's object they are handed. `dedupKept` excludes both.
-/
import M1n3Protocol.Proofs.Exclusivity

namespace M1n3Protocol

open Checked

structure DedupBooks (m : Mining) : Prop where
  dedups_registered : m.dedups.All fun d => d.key ∈ m.dedupRegistry
  dedups_inj : m.dedups.KeyInj ShareDedup.key
  count_eq : m.dedups.All fun d => d.count.toNat = d.hashes.length
  kept : ∀ i e, m.shares.get i = some e →
    ∀ s mrs, m.roundStats.get s = some mrs → mrs.key = e.key →
      ∃ j d, m.dedups.get j = some d ∧ d.key = e.key
        ∧ e.shareHash ∈ d.hashes
  distinct : m.shares.KeyInj fun e => (e.key, e.shareHash)

theorem DedupBooks.init (admin : Address) :
    DedupBooks (Mining.init admin) where
  dedups_registered := .empty
  dedups_inj := .empty
  count_eq := .empty
  kept _ _ h := by cases h
  distinct := .empty

/-- Hashes leave a table only once the stats object of its key is gone,
and a derived share is recorded under its template's round. -/
def dedupKept (m : Mining) : MiningEvent → Prop
  | .dropHashes id hashes => ∀ d s mrs, m.dedups.get id = some d →
      m.roundStats.get s = some mrs → mrs.key = d.key →
      ∀ h ∈ hashes, h ∉ d.hashes
  | .share (.derived t) ids _ => ∀ d mrs, m.derived.get t = some d →
      m.roundStats.get ids.round = some mrs → mrs.roundId = d.roundId
  | _ => True

variable {H : HashFn} {ctx : TxContext} {m m' : Mining}

-- =============================================================== the steps

/-- Steps that leave the dedup side and the shares' keys and hashes
alone, and at most remove stats objects. -/
theorem DedupBooks.of_frame (hb : DedupBooks m)
    (hreg : m'.dedupRegistry = m.dedupRegistry) (hdedups : m'.dedups = m.dedups)
    (hshares : ∀ i e, m'.shares.get i = some e →
      ∃ e₀, m.shares.get i = some e₀ ∧ e₀.key = e.key
        ∧ e₀.shareHash = e.shareHash)
    (hstats : ∀ s mrs, m'.roundStats.get s = some mrs →
      ∃ mrs₀, m.roundStats.get s = some mrs₀ ∧ mrs.key = mrs₀.key) :
    DedupBooks m' := by
  constructor
  · rw [hdedups, hreg]
    exact hb.dedups_registered
  · rw [hdedups]
    exact hb.dedups_inj
  · rw [hdedups]
    exact hb.count_eq
  · intro i e hi s mrs hs hkey
    obtain ⟨e₀, hi₀, hk, hh⟩ := hshares i e hi
    obtain ⟨mrs₀, hs₀, hmk⟩ := hstats s mrs hs
    rw [hdedups, ← hk, ← hh]
    exact hb.kept i e₀ hi₀ s mrs₀ hs₀ (by rw [← hmk, hkey, hk])
  · intro i j e f hi hj heq
    obtain ⟨e₀, hi₀, hk, hh⟩ := hshares i e hi
    obtain ⟨f₀, hj₀, hk', hh'⟩ := hshares j f hj
    refine hb.distinct i j e₀ f₀ hi₀ hj₀ ?_
    show (e₀.key, e₀.shareHash) = (f₀.key, f₀.shareHash)
    rw [hk, hh, hk', hh']
    exact heq

/-- A new stats object is under a key no share is recorded under. -/
theorem DedupBooks.createRoundStats (hb : DedupBooks m) (hsh : ShareBooks m)
    {r h : U64} {registry : List MinerRoundKey} {mrs : MinerRoundStats}
    (hok : createRoundStats m.roundRegistry r h ctx = .ok (registry, mrs)) :
    DedupBooks { m with
      roundRegistry := registry, roundStats := m.roundStats.alloc mrs } := by
  obtain ⟨hnew, -, -⟩ := createRoundStats_ok hok
  refine { hb with kept := ?_ }
  intro i e hi s t hs hkey
  rcases ObjStore.get_alloc_eq_some hs with ⟨-, rfl⟩ | hs
  · exact absurd (hkey ▸ hsh.shares_registered i e hi) hnew
  · exact hb.kept i e hi s t hs hkey

theorem DedupBooks.createDedup (hb : DedupBooks m) {r : U64}
    {registry : List MinerRoundKey} {d : ShareDedup}
    (hok : createShareDedup m.dedupRegistry r ctx = .ok (registry, d)) :
    DedupBooks { m with
      dedupRegistry := registry, dedups := m.dedups.alloc d } := by
  obtain ⟨hnew, rfl, hd⟩ := createShareDedup_ok hok
  refine { hb with
    dedups_registered := ?_
    dedups_inj := hb.dedups_inj.alloc fun i f hf hkey => ?_
    count_eq := hb.count_eq.alloc (by rw [hd]; rfl)
    kept := ?_ }
  · refine ObjStore.All.alloc (hb.dedups_registered.imp fun f hf => ?_) ?_
    · exact List.mem_cons_of_mem _ hf
    · exact List.mem_cons_self ..
  · exact hnew (hkey ▸ hb.dedups_registered i f hf)
  · intro i e hi s t hs hkey
    obtain ⟨j, f, hf, hk, hh⟩ := hb.kept i e hi s t hs hkey
    exact ⟨j, f, ObjStore.get_alloc_of_some _ hf, hk, hh⟩

/-- A table that keeps its key, its counter and every hash that still
matters can replace the old one. -/
theorem DedupBooks.put (hb : DedupBooks m) {id : ID} {d d' : ShareDedup}
    (hget : m.dedups.get id = some d) (hkey : d'.key = d.key)
    (hcount : d'.count.toNat = d'.hashes.length)
    (hkept : ∀ s mrs, m.roundStats.get s = some mrs → mrs.key = d.key →
      ∀ h ∈ d.hashes, h ∈ d'.hashes) :
    DedupBooks { m with dedups := m.dedups.put id d' } := by
  refine { hb with
    dedups_registered := hb.dedups_registered.put ?_
    dedups_inj := hb.dedups_inj.put hget hkey
    count_eq := hb.count_eq.put hcount
    kept := ?_ }
  · rw [hkey]
    exact hb.dedups_registered id d hget
  · intro i e hi s t hs hk
    obtain ⟨j, f, hf, hfk, hh⟩ := hb.kept i e hi s t hs hk
    by_cases hj : j = id
    · subst hj
      have hfd : f = d := Option.some.inj (hf.symm.trans hget)
      subst hfd
      refine ⟨j, d', ObjStore.get_put_self _ hget, hkey.trans hfk, ?_⟩
      exact hkept s t hs (hk.trans hfk.symm) _ hh
    · exact ⟨j, f, by rw [ObjStore.get_put_ne _ hj, hf], hfk, hh⟩

/-- A table that is deleted is empty, so no live object's share is in
it. -/
theorem DedupBooks.deleteDedup (hb : DedupBooks m) {id : ID} {d : ShareDedup}
    (hget : m.dedups.get id = some d)
    (hok : deleteShareDedup d ctx = .ok ()) :
    DedupBooks { m with dedups := m.dedups.erase id } := by
  have hzero := (deleteShareDedup_ok hok).2
  have hnil : d.hashes = [] := by
    rw [hb.count_eq id d hget] at hzero
    exact List.eq_nil_of_length_eq_zero hzero
  refine { hb with
    dedups_registered := hb.dedups_registered.erase
    dedups_inj := hb.dedups_inj.erase
    count_eq := hb.count_eq.erase
    kept := ?_ }
  intro i e hi s t hs hk
  obtain ⟨j, f, hf, hfk, hh⟩ := hb.kept i e hi s t hs hk
  have hj : j ≠ id := by
    rintro rfl
    rw [Option.some.inj (hf.symm.trans hget), hnil] at hh
    cases hh
  exact ⟨j, f, by rw [ObjStore.get_erase_ne hj, hf], hfk, hh⟩

/-- A share passes the table of the very key it is recorded under. -/
theorem DedupBooks.share (hb : DedupBooks m)
    {mined : TemplateRef} {ids : ShareIds} {sub : Submission}
    {payment : Option Payment} {job : Job} {o : MinerObjects}
    {out : ShareOutcome} {receipts : ObjStore ReceiptObject}
    (hcond : dedupKept m (.share mined ids sub))
    (h : m.Shared H ctx mined ids sub payment job o out receipts) :
    DedupBooks { m.recordShare ids mined job.height payment out with
      receipts } := by
  have hkey : out.objects.round.key = o.round.key :=
    key_of_recordShare h.accepted.record_ok
  obtain ⟨hround, hminer, -⟩ := recordShare_ok h.accepted.record_ok
  obtain ⟨hnew, hdr, hdm, hdc, hdh⟩ := checkAndRecord_ok h.accepted.dedup_ok
  -- The table and the stats object are under one key.
  have hjob : job.roundId = o.round.roundId := by
    cases mined with
    | direct id => exact hround.symm
    | derived id =>
        have hjob := h.job_eq
        simp only [Mining.job, Option.map_eq_some_iff] at hjob
        obtain ⟨d, hd, rfl⟩ := hjob
        exact (hcond d o.round hd h.round_get).symm
  have hdkey : o.dedup.key = o.round.key := by
    unfold ShareDedup.key MinerRoundStats.key
    rw [h.accepted.dedup_miner, h.accepted.dedup_round, hjob, hminer,
      h.accepted.stats_miner]
  have hdkey' : out.objects.dedup.key = o.dedup.key := by
    unfold ShareDedup.key
    rw [hdr, hdm]
  -- The tables after the share, on the shares from before it.
  have hput : DedupBooks { m with
      dedups := m.dedups.put ids.dedup out.objects.dedup } := by
    refine hb.put h.dedup_get hdkey' ?_ fun _ _ _ _ x hx => ?_
    · rw [hdc, hdh, hb.count_eq _ _ h.dedup_get, List.length_cons]
    · rw [hdh]
      exact List.mem_cons_of_mem _ hx
  have hself : (m.dedups.put ids.dedup out.objects.dedup).get ids.dedup
      = some out.objects.dedup := ObjStore.get_put_self _ h.dedup_get
  have hin : out.share.shareHash ∈ out.objects.dedup.hashes := by
    rw [hdh]
    exact List.mem_cons_self ..
  constructor
  · exact hput.dedups_registered
  · exact hput.dedups_inj
  · exact hput.count_eq
  · intro i e hi s t hs hk
    rcases ObjStore.get_alloc_eq_some hi with ⟨-, rfl⟩ | hi
    · refine ⟨ids.dedup, out.objects.dedup, hself, ?_, hin⟩
      show out.objects.dedup.key = out.objects.round.key
      rw [hdkey', hdkey, hkey]
    · obtain ⟨t₀, hs₀, htk⟩ := get_put_key h.round_get hkey hs
      exact hput.kept i e hi s t₀ hs₀ (by rw [← htk, hk])
  · refine hb.distinct.alloc fun i e hi heq => hnew ?_
    have hk : e.key = o.round.key :=
      (congrArg Prod.fst heq).trans hkey
    have hh : e.shareHash = out.share.shareHash := congrArg Prod.snd heq
    obtain ⟨j, d, hd, hdk, hmem⟩ :=
      hb.kept i e hi _ _ h.round_get hk.symm
    have hj := hb.dedups_inj j ids.dedup d o.dedup hd h.dedup_get
      (by rw [hdk, hk, hdkey])
    subst hj
    rw [← hh, ← Option.some.inj (hd.symm.trans h.dedup_get)]
    exact hmem

theorem DedupBooks.step {ev : MiningEvent}
    (hsh : ShareBooks m) (hb : DedupBooks m) (hcond : dedupKept m ev)
    (hs : Mining.Step H ctx m ev m') : DedupBooks m' := by
  cases hs with
  | createRoundStats hok => exact hb.createRoundStats hsh hok
  | createDedup hok => exact hb.createDedup hok
  | deleteDedup hget hok => exact hb.deleteDedup hget hok
  | share h => exact hb.share hcond h
  | @dropHashes id hashes d d' hget hok =>
      obtain ⟨-, hdrop⟩ := closeShareDedup_ok hok
      obtain ⟨hround, hminer, -, hkeep, hcount⟩ := dropHashes_ok hdrop
      refine hb.put hget ?_ (hcount (hb.count_eq id d hget)) ?_
      · unfold ShareDedup.key
        rw [hround, hminer]
      · intro s mrs hs hk h hh
        exact hkeep h hh fun hin => hcond d s mrs hget hs hk h hin hh
  | @mint rid sid r mrs mrs' hrid hsid hok =>
      refine hb.of_frame rfl rfl ?_
        fun _ _ hj => get_put_key hsid (key_of_recordSoldShare hok) hj
      intro i e hi
      obtain ⟨e₀, he₀, -⟩ := hsh.receipts_for _ _ hrid
      simp only [Mining.recordMint, he₀] at hi
      rcases ObjStore.get_put_eq_some hi with ⟨rfl, rfl, -⟩ | ⟨-, hi⟩
      · exact ⟨e₀, he₀, rfl, rfl⟩
      · exact ⟨e, hi, rfl, rfl⟩
  | closeRoundStats | skip | count =>
      exact hb.of_frame rfl rfl (fun _ e he => ⟨e, he, rfl, rfl⟩)
        fun _ mrs h => ⟨mrs, (ObjStore.get_erase_eq_some h).2, rfl⟩
  | quiet | clearReceipts | openAccumulator | finalize | consume =>
      exact hb.of_frame rfl rfl (fun _ e he => ⟨e, he, rfl, rfl⟩)
        fun _ mrs h => ⟨mrs, h, rfl⟩

/-- What holds of every state reached while the tables are kept. -/
structure DistinctBooks (m : Mining) : Prop where
  rounds : RoundBooks m
  shares : ShareBooks m
  dedups : DedupBooks m

-- ======================================================= distinct hashes

/-- While the dedup tables are kept, no hash is recorded twice under a
(miner, round). -/
theorem share_hashes_distinct {publisher : Address} {w : World}
    (h : Machine.ReachVia (contract H publisher) (Call.meets dedupKept) w) :
    ∀ i j e f, w.mining.shares.get i = some e →
      w.mining.shares.get j = some f → i ≠ j → e.key = f.key →
      e.shareHash ≠ f.shareHash := by
  have hb : DistinctBooks w.mining := by
    refine mining_invariant (C := dedupKept) (I := DistinctBooks)
      ⟨.init publisher, .init publisher, .init publisher⟩ ?_
      (fun _ _ _ _ _ _ _ _ _ => trivial) h
    intro ctx m ev m' hb hcond hs
    exact ⟨hb.rounds.step hs, hb.shares.step hb.rounds hs,
      hb.dedups.step hb.shares hcond hs⟩
  intro i j e f hi hj hne hkey heq
  exact hne (hb.dedups.distinct i j e f hi hj (Prod.ext hkey heq))

/-- Two rounds of one miner, with the same header in each. -/
def twoRounds : List Call :=
  closedRound ++
  [.beginTx 0 0 5000,
   .admin (.registerTemplate block125552),
   .beginTx 1 0 5000,
   .mining (.createRoundStats 1 0),
   .mining (.createShareDedup 1),
   .mining (.submitShare 1 ⟨0, 1, 1⟩ solution125552)]

/-- A call that drops no hash and submits on no derived template. -/
def plainShares (_ : Mining) : MiningEvent → Bool
  | .dropHashes .. | .share (.derived _) .. => false
  | _ => true

theorem dedupKept_of_plainShares (m : Mining) (ev : MiningEvent)
    (h : plainShares m ev = true) : dedupKept m ev := by
  cases ev with
  | dropHashes => cases h
  | share mined ids sub =>
      cases mined with
      | direct => exact trivial
      | derived => cases h
  | _ => exact trivial

/-- One hash, recorded under two keys. -/
theorem share_hashes_distinct_twoRounds :
    ∃ w, Machine.ReachVia (contract sha256 0) (Call.meets dedupKept) w
      ∧ ∃ e f, w.mining.shares.get 0 = some e
        ∧ w.mining.shares.get 1 = some f
        ∧ e.shareHash = f.shareHash ∧ e.key ≠ f.key := by
  have hrun : (contract sha256 0).endsFrom (Call.passes plainShares)
      (fun w => (w.mining.shares.get 0).any fun e =>
        (w.mining.shares.get 1).any fun f =>
          decide (e.shareHash = f.shareHash))
      twoRounds (World.init 0) = true := by
    decide +kernel
  obtain ⟨w, hw, hcheck⟩ := Machine.reachVia_of_endsFrom
    (Call.meets_of_passes dedupKept_of_plainShares) .init hrun
  obtain ⟨e, he, hcheck⟩ := (Option.any_eq_true ..).mp hcheck
  obtain ⟨f, hf, hhash⟩ := (Option.any_eq_true ..).mp hcheck
  have hhash := of_decide_eq_true hhash
  refine ⟨w, hw, e, f, he, hf, hhash, fun hkey => ?_⟩
  exact share_hashes_distinct hw 0 1 e f he hf (by decide) hkey hhash

/-- A table drained while its round's stats object is live lets the same
header in again. -/
def resubmitted : List Call :=
  [.admin (.registerTemplate block125552),
   .beginTx 1 0 0,
   .mining (.registerMiner []),
   .mining (.createRoundStats 0 0),
   .mining (.createShareDedup 0),
   .mining (.submitShare 0 ⟨0, 0, 0⟩ solution125552),
   .mining (.closeShareDedup 0 [leBytes 32
     0x00000000000000001e8d6829a8a21adc5d38d0a473b144b6765798e61f98bd1d]),
   .mining (.submitShare 0 ⟨0, 0, 0⟩ solution125552)]

theorem share_resubmitted :
    ∃ w, Machine.Reach (contract sha256 0) w
      ∧ ∃ e f, w.mining.shares.get 0 = some e
        ∧ w.mining.shares.get 1 = some f
        ∧ e.key = f.key ∧ e.shareHash = f.shareHash := by
  have hrun : (contract sha256 0).endsIn resubmitted (fun w =>
      (w.mining.shares.get 0).any fun e =>
        (w.mining.shares.get 1).any fun f =>
          decide (e.key = f.key ∧ e.shareHash = f.shareHash)) = true := by
    decide +kernel
  obtain ⟨w, hw, hcheck⟩ := Machine.reach_of_endsIn hrun
  obtain ⟨e, he, hcheck⟩ := (Option.any_eq_true ..).mp hcheck
  obtain ⟨f, hf, hsame⟩ := (Option.any_eq_true ..).mp hcheck
  obtain ⟨hkey, hhash⟩ := of_decide_eq_true hsame
  exact ⟨w, hw, e, f, he, hf, hkey, hhash⟩

end M1n3Protocol
