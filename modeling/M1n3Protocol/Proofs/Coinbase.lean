/-
Where a coinbase pays: the contract hashes the caller's extranonces
between the two halves of a template's coinbase and never reads the
result as a transaction.

# The exact condition

The first half fixes how many bytes of script are still to come
(`BitcoinTx.openLength`). Extranonces of the length the template leaves
for them are script whatever they say; any other length moves the
boundary, and the outputs are then read from other bytes. So an accepted
share pays the template's outputs exactly when its extranonces have that
length (`outputs_eq_iff`). A derived template promises only that its
parent's outputs come first, and extranonces of another length may spell
those out again (`outputs_prefix_iff`).
-/
import M1n3Protocol.Lib.BitcoinTx
import M1n3Protocol.Proofs.Target

namespace M1n3Protocol

open BitcoinTx Checked

-- =============================================================== templates

/-- What two coinbase halves promise: the first leaves `k` bytes of script
open, and extranonces of `size` bytes, the rest of the script being in
the second, make a transaction with these outputs. -/
structure Promises (coinbase1 coinbase2 : Bytes) (k size : Nat)
    (outputs : List TxOut) : Prop where
  open_eq : openLength coinbase1 = some k
  size_le : size ≤ k
  pays : ∀ e : Bytes, e.length = size →
    ∃ t, Tx.codec.parse (coinbase1 ++ (e ++ coinbase2)) = some t
      ∧ t.outputs = outputs

theorem drop_extranonce {e coinbase2 : Bytes} {k : Nat} (h : e.length ≤ k) :
    (e ++ coinbase2).drop k = coinbase2.drop (k - e.length) := by
  rw [List.drop_append, List.drop_of_length_le h, List.nil_append]

/-- The promised outputs are read from the second half alone. -/
theorem Promises.tail {c1 c2 : Bytes} {k size : Nat} {outputs : List TxOut}
    (h : Promises c1 c2 k size outputs) :
    k ≤ size + c2.length ∧ ∃ sequence lockTime,
      scriptTail.parse (c2.drop (k - size))
        = some (sequence, outputs, lockTime) := by
  have hlen : (List.replicate size (0 : BitVec 8)).length = size :=
    List.length_replicate
  obtain ⟨hfit, htail⟩ := (parse_cut h.open_eq).mp (h.pays _ hlen)
  rw [List.length_append, hlen] at hfit
  rw [drop_extranonce (by rw [hlen]; exact h.size_le), hlen] at htail
  exact ⟨hfit, htail⟩

/-- One extranonce tells what all of its length pay. -/
theorem promises_of_parse {c1 c2 e : Bytes} {k : Nat} {t : Tx}
    (hopen : openLength c1 = some k) (hsize : e.length ≤ k)
    (hparse : Tx.codec.parse (c1 ++ (e ++ c2)) = some t) :
    Promises c1 c2 k e.length t.outputs := by
  refine ⟨hopen, hsize, fun e' he' => ?_⟩
  obtain ⟨hfit, htail⟩ := (parse_cut hopen).mp ⟨t, hparse, rfl⟩
  apply (parse_cut hopen).mpr
  rw [drop_extranonce hsize] at htail
  rw [drop_extranonce (by omega), List.length_append, he',
    ← List.length_append]
  exact ⟨hfit, htail⟩

-- ================================================================= outputs

/-- Outputs one after the other, as they stand in a transaction. -/
def outputBytes (outputs : List TxOut) : Bytes :=
  outputs.flatMap TxOut.codec.write

/-- A list of outputs that starts with the given ones, as it stands in a
transaction: a count of at least as many, and their bytes. -/
def Carries (outputs : List TxOut) (bs : Bytes) : Prop :=
  ∃ count rest, compactSize.read bs = some (count, rest)
    ∧ outputs.length ≤ count ∧ outputBytes outputs <+: rest

theorem scriptTail_parse {bs : Bytes} {sequence lockTime : Nat}
    {outputs : List TxOut}
    (h : scriptTail.parse bs = some (sequence, outputs, lockTime)) :
    bs.length = 8 + ((counted TxOut.codec).write outputs).length
      ∧ (counted TxOut.codec).valid outputs
      ∧ ∃ lock : Bytes, lock.length = 4
        ∧ bs.drop 4 = (counted TxOut.codec).write outputs ++ lock := by
  obtain ⟨⟨-, hvalid, -⟩, hbs⟩ := Codec.parse_eq_some.mp h
  have hseq := Codec.length_number_write 4 sequence
  have hlock := Codec.length_number_write 4 lockTime
  refine ⟨?_, hvalid, _, hlock, ?_⟩
  · rw [hbs]
    simp only [scriptTail, Codec.pair_write, List.length_append]
    omega
  · rw [hbs]
    show ((Codec.number 4).write sequence ++ _).drop 4 = _
    rw [List.drop_left' hseq]
    rfl

/-- Whatever the extranonces are, the transaction pays the template's
outputs exactly when they have the length left for them. -/
theorem outputs_eq_iff {c1 c2 e : Bytes} {k size : Nat}
    {outputs : List TxOut} {t : Tx} (h : Promises c1 c2 k size outputs)
    (hparse : Tx.codec.parse (c1 ++ (e ++ c2)) = some t) :
    t.outputs = outputs ↔ e.length = size := by
  obtain ⟨hfit, sequence, lockTime, htail⟩ := h.tail
  obtain ⟨hfit', sequence', lockTime', htail'⟩ :=
    (parse_cut h.open_eq).mp ⟨t, hparse, rfl⟩
  constructor
  · intro heq
    rw [heq] at htail'
    obtain ⟨hlen, -⟩ := scriptTail_parse htail
    obtain ⟨hlen', -⟩ := scriptTail_parse htail'
    rw [List.length_append] at hfit'
    rw [List.length_drop] at hlen hlen'
    rw [List.length_append] at hlen'
    have hsize := h.size_le
    omega
  · intro hsize
    obtain ⟨t', hparse', houtputs⟩ := h.pays e hsize
    rw [hparse] at hparse'
    cases hparse'
    exact houtputs

theorem carries_of_prefix {outputs all : List TxOut} {lock : Bytes}
    (hvalid : (counted TxOut.codec).valid all) (h : outputs <+: all) :
    Carries outputs ((counted TxOut.codec).write all ++ lock) := by
  obtain ⟨more, rfl⟩ := h
  refine ⟨(outputs ++ more).length, outputBytes (outputs ++ more) ++ lock,
    ?_, ?_, ?_⟩
  · rw [counted_write, List.append_assoc]
    exact Codec.read_write _ (counted_valid.mp hvalid).1 _
  · rw [List.length_append]
    exact Nat.le_add_right _ _
  · unfold outputBytes
    rw [List.flatMap_append, List.append_assoc]
    exact List.prefix_append _ _

/-- Lists of outputs with a common start in bytes have a common start. -/
theorem prefix_of_bytes : ∀ {outputs all : List TxOut} {rest lock : Bytes},
    (∀ o ∈ outputs, TxOut.codec.valid o) → (∀ o ∈ all, TxOut.codec.valid o) →
    outputs.length ≤ all.length →
    outputBytes outputs ++ rest = outputBytes all ++ lock →
    outputs <+: all := by
  intro outputs
  induction outputs with
  | nil =>
      intro all _ _ _ _ _ _
      exact List.nil_prefix
  | cons o outputs ih =>
      intro all rest lock hvalid hall hlen hbytes
      cases all with
      | nil => cases hlen
      | cons a all =>
          unfold outputBytes at hbytes
          rw [List.flatMap_cons, List.flatMap_cons, List.append_assoc,
            List.append_assoc] at hbytes
          obtain ⟨hhead, hbytes⟩ := Codec.write_unique
            (hvalid o List.mem_cons_self) (hall a List.mem_cons_self) hbytes
          rw [hhead]
          apply List.cons_prefix_cons.mpr
          refine ⟨rfl, ih (fun o ho => hvalid o (List.mem_cons_of_mem _ ho))
            (fun o ho => hall o (List.mem_cons_of_mem _ ho))
            (Nat.le_of_succ_le_succ hlen) hbytes⟩

theorem prefix_of_carries {outputs all : List TxOut} {lock : Bytes}
    (houtputs : (counted TxOut.codec).valid outputs)
    (hall : (counted TxOut.codec).valid all)
    (h : Carries outputs ((counted TxOut.codec).write all ++ lock)) :
    outputs <+: all := by
  obtain ⟨count, rest, hread, hle, more, rfl⟩ := h
  rw [counted_write, List.append_assoc,
    Codec.read_write _ (counted_valid.mp hall).1] at hread
  injection hread with hpair
  injection hpair with hcount hrest
  rw [← hcount] at hle
  exact prefix_of_bytes (counted_valid.mp houtputs).2
    (counted_valid.mp hall).2 hle hrest.symm

-- ======================================================= derived templates

/-- A derived tail agrees with its parent's from the second byte to the
locktime. -/
theorem verifyDerivedCoinbase_shared {p d : Bytes} {u : Unit} {i : Nat}
    (hok : verifyDerivedCoinbase p d = .ok u) (hi : 1 ≤ i) :
    (p.drop i).take (p.length - 4 - i) = (d.drop i).take (p.length - 4 - i)
      := by
  obtain ⟨-, -, hshared, -⟩ := verifyDerivedCoinbase_ok hok
  have hdrop := congrArg (List.drop (i - 1)) hshared
  rw [List.drop_take, List.drop_take, List.drop_drop, List.drop_drop,
    show 1 + (i - 1) = i by omega,
    show p.length - 5 - (i - 1) = p.length - 4 - i by omega] at hdrop
  exact hdrop

/-- Extranonces of the right length leave the parent's outputs in place
in a derived coinbase. -/
theorem Promises.carries {c1 p d e : Bytes} {k size : Nat}
    {outputs : List TxOut} (h : Promises c1 p k size outputs)
    {u : Unit} (hd : verifyDerivedCoinbase p d = .ok u)
    (he : e.length = size) : Carries outputs ((e ++ d).drop (k + 4)) := by
  obtain ⟨hfit, sequence, lockTime, htail⟩ := h.tail
  obtain ⟨hlen, hvalid, lock, hlock, hbytes⟩ := scriptTail_parse htail
  have hsize := h.size_le
  rw [List.drop_drop] at hbytes
  have hplen := congrArg List.length hbytes
  rw [List.length_drop, List.length_append, hlock] at hplen
  rw [List.length_drop] at hlen
  have hshared := verifyDerivedCoinbase_shared hd
    (show 1 ≤ k - size + 4 by omega)
  rw [hbytes, List.take_left' (by omega)] at hshared
  rw [drop_extranonce (by omega),
    show k + 4 - e.length = k - size + 4 by omega,
    ← List.take_append_drop (p.length - 4 - (k - size + 4))
      (d.drop (k - size + 4)), ← hshared]
  exact carries_of_prefix hvalid (List.prefix_refl _)

/-- Exactly when a transaction made on a derived template starts with its
parent's outputs. -/
theorem outputs_prefix_iff {c1 p d e : Bytes} {k size : Nat}
    {outputs : List TxOut} {t : Tx} (h : Promises c1 p k size outputs)
    {u : Unit} (hd : verifyDerivedCoinbase p d = .ok u)
    (hparse : Tx.codec.parse (c1 ++ (e ++ d)) = some t) :
    outputs <+: t.outputs
      ↔ e.length = size ∨ Carries outputs ((e ++ d).drop (k + 4)) := by
  obtain ⟨-, _, _, htail⟩ := h.tail
  obtain ⟨-, houtputs, -⟩ := scriptTail_parse htail
  obtain ⟨-, sequence, lockTime, htail'⟩ :=
    (parse_cut h.open_eq).mp ⟨t, hparse, rfl⟩
  obtain ⟨-, hall, lock, -, hbytes⟩ := scriptTail_parse htail'
  rw [List.drop_drop] at hbytes
  constructor
  · intro hprefix
    right
    rw [hbytes]
    exact carries_of_prefix hall hprefix
  · intro hcond
    have hcarries : Carries outputs ((e ++ d).drop (k + 4)) := by
      rcases hcond with hsize | hcarries
      · exact h.carries hd hsize
      · exact hcarries
    rw [hbytes] at hcarries
    exact prefix_of_carries houtputs hall hcarries

-- =============================================================== the chain

/-- The template whose outputs a share must pay: the one it is mined on,
or the parent of a derived one. -/
def Mining.source (m : Mining) : TemplateRef → Option Template
  | .direct id => (m.templates.get id).map TemplateObject.template
  | .derived id => (m.derived.get id).bind fun d =>
      (m.templates.get d.parentTemplateId).map TemplateObject.template

/-- What the miner of a template of either kind may do to its outputs:
nothing, or put more after them. -/
def TemplateRef.Keeps (outputs paid : List TxOut) : TemplateRef → Prop
  | .direct _ => paid = outputs
  | .derived _ => outputs <+: paid

/-- When the transaction made on a template keeps its outputs: the
extranonces `e` before the second half `coinbase2` have the length left
for them, or, on a derived template, the outputs are spelled out in them
where a transaction has its outputs. -/
def TemplateRef.Fits (k size : Nat) (outputs : List TxOut)
    (e coinbase2 : Bytes) : TemplateRef → Prop
  | .direct _ => e.length = size
  | .derived _ =>
      e.length = size ∨ Carries outputs ((e ++ coinbase2).drop (k + 4))

/-- Every derived template has a parent, whose first half it shares and
whose tail it was checked against. -/
def DerivedBooks (m : Mining) : Prop :=
  ∀ id d, m.derived.get id = some d →
    ∃ parent, m.templates.get d.parentTemplateId = some parent
      ∧ d.coinbase1 = parent.template.coinbase1
      ∧ verifyDerivedCoinbase parent.template.coinbase2 d.coinbase2 = .ok ()

theorem DerivedBooks.init (publisher : Address) :
    DerivedBooks (Mining.init publisher) := by
  intro id d hd
  cases hd

theorem DerivedBooks.quiet {ctx : TxContext} {m : Mining} {pool : Pool}
    {templates : ObjStore TemplateObject} {derived : ObjStore DerivedTemplate}
    {minerStats : ObjStore MinerStats} (hb : DerivedBooks m)
    (h : m.Quiet ctx pool templates derived) :
    DerivedBooks { m with pool, templates, derived, minerStats } := by
  intro id d hd
  rcases h.derived_new id d hd with hold
    | ⟨pid, parent, fee, c1, c2, ntime, hparent, hreg⟩
  · obtain ⟨parent, hparent, hshared⟩ := hb id d hold
    exact ⟨parent, h.templates_kept _ _ hparent, hshared⟩
  · obtain ⟨hpid, hc1, -, -, -, -, hverify⟩ :=
      registerDerivedTemplatePublic_ok hreg
    rw [← hpid] at hparent
    exact ⟨parent, h.templates_kept _ _ hparent, hc1, hverify⟩

theorem DerivedBooks.step {H : HashFn} {ctx : TxContext} {m m' : Mining}
    {ev : MiningEvent} (hb : DerivedBooks m)
    (hs : Mining.Step H ctx m ev m') : DerivedBooks m' := by
  cases hs with
  | quiet h => exact hb.quiet h
  | finalize | createRoundStats | closeRoundStats | createDedup | dropHashes
  | deleteDedup | share | clearReceipts | mint | openAccumulator | skip
  | count | consume => exact hb

theorem derivedBooks_of_reach {H : HashFn} {publisher : Address} {w : World}
    (h : Machine.Reach (contract H publisher) w) : DerivedBooks w.mining :=
  mining_invariant_always (DerivedBooks.init publisher)
    (fun _ _ _ _ hb hs => hb.step hs) h

/-- An accepted share is credited for a header that commits to the
transaction its extranonces make. -/
theorem SubmittedOn.commits {H : HashFn} {job : Job} {sub : Submission}
    {out : ShareOutcome} {t : Tx} (h : SubmittedOn H job sub out)
    (hparse : Tx.codec.parse (job.coinbase sub) = some t) :
    out.share.shareHash = sha256d H (u32Le sub.version ++ job.prevBlockHash
      ++ merkleRoot H (sha256d H (Tx.codec.write t)) job.merkleBranches
      ++ u32Le sub.ntime ++ u32Le job.nbits ++ u32Le sub.nonce) := by
  obtain ⟨⟨r, o, ctx, hacc⟩, -⟩ := h.validated
  obtain ⟨-, hbytes⟩ := Codec.parse_eq_some.mp hparse
  rw [hacc.hash_eq, ← hbytes]
  rfl

/-- Exactly when an accepted share whose coinbase is a transaction keeps
the outputs of its template, which is what its header then commits to. -/
theorem coinbase_kept_iff {H : HashFn} {publisher : Address} {w : World}
    (h : Machine.Reach (contract H publisher) w) {ref : TemplateRef}
    {job : Job} (hjob : w.mining.job ref = some job) {source : Template}
    (hsource : w.mining.source ref = some source) {k size : Nat}
    {outputs : List TxOut}
    (hpromise : Promises source.coinbase1 source.coinbase2 k size outputs)
    {sub : Submission} {out : ShareOutcome} (hsub : SubmittedOn H job sub out)
    {t : Tx} (hparse : Tx.codec.parse (job.coinbase sub) = some t) :
    out.share.shareHash = sha256d H (u32Le sub.version ++ job.prevBlockHash
      ++ merkleRoot H (sha256d H (Tx.codec.write t)) job.merkleBranches
      ++ u32Le sub.ntime ++ u32Le job.nbits ++ u32Le sub.nonce)
    ∧ (ref.Keeps outputs t.outputs
      ↔ ref.Fits k size outputs (sub.extranonce1 ++ sub.extranonce2)
          job.coinbase2) := by
  refine ⟨hsub.commits hparse, ?_⟩
  unfold Job.coinbase at hparse
  rw [List.append_assoc, List.append_assoc, ← List.append_assoc
    sub.extranonce1] at hparse
  cases ref with
  | direct id =>
      obtain ⟨o, ho, rfl⟩ := Option.map_eq_some_iff.mp hjob
      obtain ⟨o', ho', rfl⟩ := Option.map_eq_some_iff.mp hsource
      rw [ho] at ho'
      cases ho'
      exact outputs_eq_iff hpromise hparse
  | derived id =>
      obtain ⟨d, hd, rfl⟩ := Option.map_eq_some_iff.mp hjob
      obtain ⟨d', hd', hsource⟩ := Option.bind_eq_some_iff.mp hsource
      obtain ⟨parent, hparent, rfl⟩ := Option.map_eq_some_iff.mp hsource
      rw [hd] at hd'
      cases hd'
      obtain ⟨parent', hparent', hc1, hverify⟩ :=
        derivedBooks_of_reach h id d hd
      rw [hparent] at hparent'
      cases hparent'
      have hsame : d.job.coinbase1 = parent.template.coinbase1 := hc1
      rw [hsame] at hparse
      exact outputs_prefix_iff hpromise hverify hparse

/-- A small enough hash for any header: the one block 125552 has. -/
def hash125552 : Bytes :=
  leBytes 32 0x1e8d6829a8a21adc5d38d0a473b144b6765798e61f98bd1d

def everyHeaderSolves : HashFn :=
  constHash hash125552 (length_leBytes _ _)

def payBuyer : TxOut := ⟨5_000_000_000, [0x51]⟩
def payMiner : TxOut := ⟨5_000_000_000, [0x52]⟩

/-- A template whose coinbase leaves four bytes of script to the
extranonces and pays the buyer. -/
def buyerBlock : TemplateArgs :=
  { block125552 with
    coinbase1 := scriptHead.write
      (1, 1, List.replicate 32 0 ++ List.replicate 4 0xff, 4)
    coinbase2 := scriptTail.write (0xffffffff, [payBuyer], 0) }

theorem buyerBlock_promises :
    Promises buyerBlock.coinbase1 buyerBlock.coinbase2 4 4 [payBuyer] := by
  have hopen : openLength buyerBlock.coinbase1 = some 4 := by decide +kernel
  have hpays : (Tx.codec.parse (buyerBlock.coinbase1
      ++ (List.replicate 4 0 ++ buyerBlock.coinbase2))).map Tx.outputs
        = some [payBuyer] := by
    decide +kernel
  obtain ⟨t, hparse, houtputs⟩ := Option.map_eq_some_iff.mp hpays
  rw [← houtputs]
  exact promises_of_parse hopen
    (Nat.le_of_eq (List.length_replicate (n := 4))) hparse

/-- Two extranonces of two bytes. -/
def fittingShare : Submission :=
  { solution125552 with extranonce1 := [0, 1], extranonce2 := [2, 3] }

/-- Four bytes of script, and then a transaction of the miner's own: two
outputs, the second with the template's tail as its script. -/
def overlongShare : Submission :=
  { solution125552 with
    extranonce1 := [0, 1]
    extranonce2 := [2, 3] ++ (Codec.number 4).write 0xffffffff
      ++ compactSize.write 2 ++ TxOut.codec.write payMiner
      ++ (Codec.number 8).write 0 ++ compactSize.write 15 }

/-- On the buyer's template a share with four bytes of extranonces pays
the buyer. -/
theorem coinbase_kept_fittingShare :
    ∃ w job out t, Machine.Reach (contract everyHeaderSolves 0) w
      ∧ w.mining.job (.direct 0) = some job
      ∧ SubmittedOn everyHeaderSolves job fittingShare out
      ∧ Tx.codec.parse (job.coinbase fittingShare) = some t
      ∧ t.outputs = [payBuyer] := by
  have hrun : (contract everyHeaderSolves 0).endsIn
      [.admin (.registerTemplate buyerBlock)] (fun w =>
        (w.mining.templates.get 0).any fun o =>
          decide (o.template.coinbase1 = buyerBlock.coinbase1
            ∧ o.template.coinbase2 = buyerBlock.coinbase2)
          && (Tx.codec.parse (o.template.job.coinbase fittingShare)).isSome
          && (submitShare everyHeaderSolves o.template (freshObjects 0)
            fittingShare ⟨0, 0, 0⟩).toOption.isSome) = true := by
    decide +kernel
  obtain ⟨w, hw, hcheck⟩ := Machine.reach_of_endsIn hrun
  obtain ⟨o, ho, hcheck⟩ := (Option.any_eq_true ..).mp hcheck
  rw [Bool.and_eq_true, Bool.and_eq_true, decide_eq_true_eq] at hcheck
  obtain ⟨⟨⟨hc1, hc2⟩, hparse⟩, haccept⟩ := hcheck
  obtain ⟨t, hparse⟩ := Option.isSome_iff_exists.mp hparse
  have hpromise := buyerBlock_promises
  rw [← hc1, ← hc2] at hpromise
  have hjob : w.mining.job (.direct 0) = some o.template.job :=
    Option.map_eq_some_iff.mpr ⟨o, ho, rfl⟩
  have hsource : w.mining.source (.direct 0) = some o.template :=
    Option.map_eq_some_iff.mpr ⟨o, ho, rfl⟩
  obtain ⟨⟨out, receipt⟩, haccept⟩ := Option.isSome_iff_exists.mp haccept
  have hsub : SubmittedOn everyHeaderSolves o.template.job fittingShare out :=
    .share (toOption_eq_some.mp haccept)
  have hkept := coinbase_kept_iff hw hjob hsource hpromise hsub hparse
  exact ⟨w, _, out, t, hw, hjob, hsub, hparse, hkept.2.mpr rfl⟩

/-- An accepted share can pay its miner in place of the buyer. -/
theorem coinbase_redirected :
    ∃ w w', Machine.Reach (contract everyHeaderSolves 0) w
      ∧ w.exec everyHeaderSolves
          (.mining (.submitShare 0 ⟨0, 0, 0⟩ overlongShare)) = .ok w'
      ∧ (∃ e, w'.mining.shares.get 0 = some e ∧ e.mined = .direct 0
        ∧ e.miner = 1 ∧ e.shareHash = hash125552)
      ∧ ∃ source t, w.mining.source (.direct 0) = some source
        ∧ Promises source.coinbase1 source.coinbase2 4 4 [payBuyer]
        ∧ Tx.codec.parse (source.job.coinbase overlongShare) = some t
        ∧ t.outputs = [payMiner, ⟨0, buyerBlock.coinbase2.take 15⟩] := by
  have hrun : (contract everyHeaderSolves 0).endsIn
      [.admin (.registerTemplate buyerBlock),
       .beginTx 1 0 0,
       .mining (.registerMiner []),
       .mining (.createRoundStats 0 0),
       .mining (.createShareDedup 0)] (fun w =>
        ((w.exec everyHeaderSolves
          (.mining (.submitShare 0 ⟨0, 0, 0⟩ overlongShare))).toOption.any
            fun w' => (w'.mining.shares.get 0).any fun e => decide
              (e.mined = .direct 0 ∧ e.miner = 1
                ∧ e.shareHash = hash125552))
        && (w.mining.source (.direct 0)).any fun source => decide
          ((source.coinbase1 = buyerBlock.coinbase1
            ∧ source.coinbase2 = buyerBlock.coinbase2)
            ∧ (Tx.codec.parse (source.job.coinbase overlongShare)).map
              Tx.outputs
                = some [payMiner, ⟨0, buyerBlock.coinbase2.take 15⟩]))
      = true := by
    decide +kernel
  obtain ⟨w, hw, hcheck⟩ := Machine.reach_of_endsIn hrun
  rw [Bool.and_eq_true] at hcheck
  obtain ⟨hstep, hsource⟩ := hcheck
  obtain ⟨w', hw', hstep⟩ := (Option.any_eq_true ..).mp hstep
  obtain ⟨e, he, hentry⟩ := (Option.any_eq_true ..).mp hstep
  obtain ⟨source, hsource, hcheck⟩ := (Option.any_eq_true ..).mp hsource
  obtain ⟨⟨hc1, hc2⟩, hparse⟩ := of_decide_eq_true hcheck
  obtain ⟨t, hparse, houtputs⟩ := Option.map_eq_some_iff.mp hparse
  have hpromise := buyerBlock_promises
  rw [← hc1, ← hc2] at hpromise
  exact ⟨w, w', hw, toOption_eq_some.mp hw',
    ⟨e, he, of_decide_eq_true hentry⟩, source, t, hsource, hpromise, hparse,
    houtputs⟩

end M1n3Protocol
