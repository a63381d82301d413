/-
The share dedup tables as a store of their own: the four calls of
`share_dedup.move` in any order, by anyone, with any hashes.

# The representation

`count` mirrors the set of dynamic fields of a table: each hash is stored
once and the counter is their number (`ShareDedup.Counts`). A loop that
meets an absent or a repeated hash leaves both alone, so the invariant
holds after every prefix of it and the decrement always has a hash to
account for.

# The registry

A key stays registered for good. The log beside the run lists the keys
under which a table was ever made; all of them are registered, so none is
made twice, whether or not the first table is still there.

# The contract

Every run of the whole package does to its tables what some run of these
four calls does (`dedupTables_of_contract`), whatever it checks before.
-/
import M1n3Protocol.Proofs.Exclusivity

namespace M1n3Protocol

open Checked

-- ============================================================= the calls

inductive DedupCall
  | createShareDedup (roundId : U64)
  | checkAndRecord (dedup : ID) (hash : Bytes)
  | closeShareDedup (dedup : ID) (hashesToRemove : List Bytes)
  | deleteShareDedup (dedup : ID)
  deriving DecidableEq, Repr

/-- The registry and the tables there are. -/
structure DedupTables where
  registry : List MinerRoundKey
  dedups : ObjStore ShareDedup

def DedupTables.exec (s : DedupTables) (input : TxContext × DedupCall) :
    Except Abort DedupTables :=
  match input.2 with
  | .createShareDedup roundId => do
      let (registry, d) ←
        M1n3Protocol.createShareDedup s.registry roundId input.1
      return { registry, dedups := s.dedups.alloc d }
  | .checkAndRecord id hash => do
      let d ← load s.dedups id
      let d ← M1n3Protocol.checkAndRecord d hash
      return { s with dedups := s.dedups.put id d }
  | .closeShareDedup id hashesToRemove => do
      let d ← load s.dedups id
      let d ← M1n3Protocol.closeShareDedup d hashesToRemove input.1
      return { s with dedups := s.dedups.put id d }
  | .deleteShareDedup id => do
      let d ← load s.dedups id
      M1n3Protocol.deleteShareDedup d input.1
      return { s with dedups := s.dedups.erase id }

def dedupTables : Machine Abort DedupTables (TxContext × DedupCall) where
  init := { registry := [], dedups := .empty }
  step := DedupTables.exec

/-- The key of the table that a step made, if it made one. -/
def DedupTables.created (s s' : DedupTables) : List MinerRoundKey :=
  (s'.dedups.get s.dedups.next).toList.map ShareDedup.key

/-- The tables, beside the keys of all that were ever made. -/
def dedupTablesLogged :
    Machine Abort (DedupTables × List MinerRoundKey)
      (TxContext × DedupCall) :=
  dedupTables.withGhost [] fun s _ s' log => s.created s' ++ log

-- ============================================================== one table

/-- The counter is the number of hashes stored. -/
structure ShareDedup.Counts (d : ShareDedup) : Prop where
  nodup : d.hashes.Nodup
  count_eq : d.count.toNat = d.hashes.length

theorem ShareDedup.Counts.checkAndRecord {d d' : ShareDedup} {h : Bytes}
    (hd : d.Counts) (hok : checkAndRecord d h = .ok d') : d'.Counts := by
  obtain ⟨hnew, -, -, hcount, hhashes⟩ := checkAndRecord_ok hok
  constructor
  · rw [hhashes]
    exact List.nodup_cons.mpr ⟨hnew, hd.nodup⟩
  · rw [hcount, hhashes, hd.count_eq, List.length_cons]

/-- The loop comes to the end of every list: where a hash is there to
remove, the counter is positive. -/
theorem ShareDedup.Counts.dropHashes (hs : List Bytes) :
    ∀ {d : ShareDedup}, d.Counts →
      ∃ d', dropHashes d hs = .ok d' ∧ d'.Counts := by
  induction hs with
  | nil =>
      intro d hd
      exact ⟨d, rfl, hd⟩
  | cons h rest ih =>
      intro d hd
      by_cases hin : h ∈ d.hashes
      · have hlen := List.length_erase_of_mem hin
        have hpos := List.length_pos_of_mem hin
        have hone : (1 : U32).toNat = 1 := rfl
        have hle : (1 : U32).toNat ≤ d.count.toNat := by
          rw [hd.count_eq]
          exact hpos
        obtain ⟨c, hc⟩ : ∃ c, subU d.count 1 = .ok c :=
          ⟨d.count - 1, if_pos hle⟩
        have hcount := sub_eq_ok.mp hc
        have hrest : ShareDedup.Counts
            { d with count := c, hashes := d.hashes.erase h } := by
          refine ⟨hd.nodup.erase h, ?_⟩
          show c.toNat = (d.hashes.erase h).length
          have := hd.count_eq
          omega
        obtain ⟨d', hok, hd'⟩ := ih hrest
        refine ⟨d', ?_, hd'⟩
        rw [M1n3Protocol.dropHashes, if_pos hin, hc]
        exact hok
      · obtain ⟨d', hok, hd'⟩ := ih hd
        refine ⟨d', ?_, hd'⟩
        rw [M1n3Protocol.dropHashes, if_neg hin]
        exact hok

/-- The loop over a list passes through its prefixes. -/
theorem dropHashes_append (d : ShareDedup) (done rest : List Bytes) :
    dropHashes d (done ++ rest)
      = (dropHashes d done).bind fun d' => dropHashes d' rest := by
  induction done generalizing d with
  | nil => rfl
  | cons h done ih =>
      simp only [List.cons_append, dropHashes]
      split
      · cases subU d.count 1 with
        | error e => rfl
        | ok c => exact ih _
      · exact ih d

/-- After any part of the list the counter is right, and the loop goes on
from there. -/
theorem ShareDedup.Counts.dropHashes_prefix {d : ShareDedup} (hd : d.Counts)
    (done rest : List Bytes) :
    ∃ d', M1n3Protocol.dropHashes d done = .ok d' ∧ d'.Counts
      ∧ M1n3Protocol.dropHashes d (done ++ rest)
        = M1n3Protocol.dropHashes d' rest := by
  obtain ⟨d', hok, hd'⟩ := hd.dropHashes done
  refine ⟨d', hok, hd', ?_⟩
  rw [dropHashes_append, hok]
  rfl

/-- The owner of a table can always close it, with any list. -/
theorem ShareDedup.Counts.closeShareDedup {d : ShareDedup} (hd : d.Counts)
    (hs : List Bytes) {ctx : TxContext} (howner : d.miner = ctx.sender) :
    ∃ d', closeShareDedup d hs ctx = .ok d' ∧ d'.Counts := by
  obtain ⟨d', hok, hd'⟩ := hd.dropHashes hs
  refine ⟨d', ?_, hd'⟩
  rw [M1n3Protocol.closeShareDedup, require_of howner]
  exact hok

theorem ShareDedup.Counts.deleteShareDedup {d : ShareDedup} (hd : d.Counts)
    {ctx : TxContext} (hok : deleteShareDedup d ctx = .ok ()) :
    d.hashes = [] := by
  have hzero := (deleteShareDedup_ok hok).2
  rw [hd.count_eq] at hzero
  exact List.eq_nil_of_length_eq_zero hzero

-- =============================================================== all runs

/-- What holds of the tables, and of the keys of all ever made. -/
structure TableBooks (s : DedupTables) (log : List MinerRoundKey) : Prop where
  counts : s.dedups.All ShareDedup.Counts
  registered : ∀ k ∈ log, k ∈ s.registry
  once : log.Nodup

/-- A step that makes no table leaves the log as it is. -/
theorem DedupTables.created_eq_nil {s s' : DedupTables}
    (h : s'.dedups.next = s.dedups.next) : s.created s' = [] := by
  unfold DedupTables.created
  rw [s'.dedups.fresh _ h.le]
  rfl

theorem TableBooks.put {s : DedupTables} {log : List MinerRoundKey} {id : ID}
    {d : ShareDedup} (hb : TableBooks s log) (hd : d.Counts) :
    TableBooks { s with dedups := s.dedups.put id d } log :=
  ⟨hb.counts.put hd, hb.registered, hb.once⟩

theorem TableBooks.create {s : DedupTables} {log : List MinerRoundKey}
    {r : U64} {ctx : TxContext} {registry : List MinerRoundKey}
    {d : ShareDedup} (hb : TableBooks s log)
    (hok : createShareDedup s.registry r ctx = .ok (registry, d)) :
    TableBooks { registry, dedups := s.dedups.alloc d } (d.key :: log) := by
  obtain ⟨hnew, rfl, hd⟩ := createShareDedup_ok hok
  refine ⟨hb.counts.alloc ?_, ?_, ?_⟩
  · rw [hd]
    exact ⟨List.nodup_nil, rfl⟩
  · intro k hk
    rcases List.mem_cons.mp hk with rfl | hk
    · exact List.mem_cons_self ..
    · exact List.mem_cons_of_mem _ (hb.registered k hk)
  · exact List.nodup_cons.mpr ⟨fun h => hnew (hb.registered _ h), hb.once⟩

theorem TableBooks.step {s s' : DedupTables} {log : List MinerRoundKey}
    {input : TxContext × DedupCall} (hb : TableBooks s log)
    (hs : s.exec input = .ok s') : TableBooks s' (s.created s' ++ log) := by
  obtain ⟨ctx, call⟩ := input
  cases call with
  | createShareDedup roundId =>
      simp only [DedupTables.exec, bind_eq_ok, pure_eq_ok] at hs
      obtain ⟨⟨registry, d⟩, hok, rfl⟩ := hs
      have hmade : s.created { registry, dedups := s.dedups.alloc d }
          = [d.key] := by
        simp [DedupTables.created]
      rw [hmade]
      exact hb.create hok
  | checkAndRecord id hash =>
      simp only [DedupTables.exec, bind_eq_ok, pure_eq_ok, load_eq_ok] at hs
      obtain ⟨d, hget, d', hok, rfl⟩ := hs
      rw [DedupTables.created_eq_nil (by rfl)]
      exact hb.put ((hb.counts id d hget).checkAndRecord hok)
  | closeShareDedup id hashes =>
      simp only [DedupTables.exec, bind_eq_ok, pure_eq_ok, load_eq_ok] at hs
      obtain ⟨d, hget, d', hok, rfl⟩ := hs
      obtain ⟨d'', hdrop, hd''⟩ :=
        (hb.counts id d hget).closeShareDedup hashes
          (closeShareDedup_ok hok).1
      rw [hok] at hdrop
      injection hdrop with hdrop
      subst hdrop
      rw [DedupTables.created_eq_nil (by rfl)]
      exact hb.put hd''
  | deleteShareDedup id =>
      simp only [DedupTables.exec, bind_eq_ok, pure_eq_ok] at hs
      obtain ⟨d, -, u, -, rfl⟩ := hs
      rw [DedupTables.created_eq_nil (by rfl)]
      exact ⟨hb.counts.erase, hb.registered, hb.once⟩

theorem tableBooks_of_reach {s : DedupTables × List MinerRoundKey}
    (h : Machine.Reach dedupTablesLogged s) : TableBooks s.1 s.2 := by
  refine Machine.ReachVia.withGhost_invariant ?_ ?_ h
  · constructor
    · exact .empty
    · exact fun k hk => absurd hk List.not_mem_nil
    · exact List.nodup_nil
  · intro s input s' log _ hb _ hs
    exact hb.step hs

/-- In every run: a table's counter is the number of its hashes, also
after each step of the loop that drops them; the loop never fails; only
an empty table is deleted; and no (miner, round) ever gets a second
table. -/
theorem dedup_tables_sound {s : DedupTables × List MinerRoundKey}
    (h : Machine.Reach dedupTablesLogged s) :
    (∀ id d, s.1.dedups.get id = some d →
      d.hashes.Nodup ∧ d.count.toNat = d.hashes.length
        ∧ (∀ done rest, ∃ d', dropHashes d done = .ok d'
            ∧ d'.hashes.Nodup ∧ d'.count.toNat = d'.hashes.length
            ∧ dropHashes d (done ++ rest) = dropHashes d' rest)
        ∧ (∀ hashesToRemove ctx, d.miner = ctx.sender →
            ∃ d', closeShareDedup d hashesToRemove ctx = .ok d')
        ∧ ∀ ctx, deleteShareDedup d ctx = .ok () → d.hashes = [])
      ∧ s.2.Nodup := by
  have hb := tableBooks_of_reach h
  refine ⟨fun id d hget => ?_, hb.once⟩
  have hd : d.Counts := hb.counts id d hget
  refine ⟨hd.nodup, hd.count_eq, ?_, ?_, fun ctx hok => ?_⟩
  · intro done rest
    obtain ⟨d', hok, hd', hgo⟩ := hd.dropHashes_prefix done rest
    exact ⟨d', hok, hd'.nodup, hd'.count_eq, hgo⟩
  · intro hashes ctx howner
    obtain ⟨d', hok, -⟩ := hd.closeShareDedup hashes howner
    exact ⟨d', hok⟩
  · exact hd.deleteShareDedup hok

/-- A table that is given two hashes, drained by a list with a repeat and
an unknown hash in it, and deleted. -/
def drained : List (TxContext × DedupCall) :=
  [(⟨7, 0, 0⟩, .createShareDedup 3),
   (⟨7, 0, 0⟩, .checkAndRecord 0 [1]),
   (⟨7, 0, 0⟩, .checkAndRecord 0 [2]),
   (⟨7, 0, 0⟩, .closeShareDedup 0 [[1], [9], [1], [2]]),
   (⟨7, 0, 0⟩, .deleteShareDedup 0)]

/-- Its key is still taken. -/
theorem dedup_tables_sound_drained :
    ∃ s, Machine.Reach dedupTablesLogged s ∧ s.1.dedups.get 0 = none
      ∧ s.2 = [⟨7, 3⟩] ∧ s.2.Nodup
      ∧ DedupTables.exec s.1 (⟨7, 0, 0⟩, .createShareDedup 3)
        = .error (.shareDedup .EAlreadyRegistered) := by
  have hrun : dedupTablesLogged.endsIn drained (fun s =>
      (s.1.dedups.get 0).isNone && decide (s.2 = [⟨7, 3⟩])
        && decide (s.1.registry = [⟨7, 3⟩])) = true := by
    decide +kernel
  obtain ⟨s, hs, hcheck⟩ := Machine.reach_of_endsIn hrun
  simp only [Bool.and_eq_true, decide_eq_true_eq,
    Option.isNone_iff_eq_none] at hcheck
  obtain ⟨⟨hgone, hlog⟩, hreg⟩ := hcheck
  refine ⟨s, hs, hgone, hlog, (dedup_tables_sound hs).2, ?_⟩
  simp only [DedupTables.exec, createShareDedup, hreg]
  rfl

-- =========================================================== the contract

def Mining.dedupTables (m : Mining) : DedupTables :=
  ⟨m.dedupRegistry, m.dedups⟩

variable {H : HashFn} {ctx : TxContext} {m m' : Mining}

/-- A step of the contract leaves the tables alone or is one of the four
calls on them. -/
theorem Mining.Step.dedupTables {ev : MiningEvent}
    (hs : Mining.Step H ctx m ev m') :
    m'.dedupTables = m.dedupTables
      ∨ ∃ call, m.dedupTables.exec (ctx, call) = .ok m'.dedupTables := by
  cases hs with
  | @createDedup r registry d hok =>
      refine .inr ⟨.createShareDedup r, ?_⟩
      simp only [DedupTables.exec, bind_eq_ok, pure_eq_ok]
      exact ⟨(registry, d), hok, rfl⟩
  | @dropHashes id hashes d d' hget hok =>
      refine .inr ⟨.closeShareDedup id hashes, ?_⟩
      simp only [DedupTables.exec, bind_eq_ok, pure_eq_ok, load_eq_ok]
      exact ⟨d, hget, d', hok, rfl⟩
  | @deleteDedup id d hget hok =>
      refine .inr ⟨.deleteShareDedup id, ?_⟩
      simp only [DedupTables.exec, bind_eq_ok, pure_eq_ok, load_eq_ok]
      exact ⟨d, hget, (), hok, rfl⟩
  | @share mined ids sub payment job o out receipts h =>
      refine .inr ⟨.checkAndRecord ids.dedup out.share.shareHash, ?_⟩
      simp only [DedupTables.exec, bind_eq_ok, pure_eq_ok, load_eq_ok]
      exact ⟨o.dedup, h.dedup_get, out.objects.dedup, h.accepted.dedup_ok,
        rfl⟩
  | _ => exact .inl rfl

/-- What the whole package does to its tables, the four calls can do. -/
theorem dedupTables_of_contract {publisher : Address} {w : World}
    (h : Machine.Reach (contract H publisher) w) :
    Machine.Reach dedupTables w.mining.dedupTables := by
  refine mining_invariant_always
    (I := fun m => Machine.Reach dedupTables m.dedupTables) .init ?_ h
  intro ctx m ev m' hm hs
  rcases hs.dedupTables with heq | ⟨call, hok⟩
  · rw [heq]
    exact hm
  · exact .step (ctx, call) hm trivial hok

/-- So its tables are counted right, whatever the miners drop and when. -/
theorem counts_of_contract {publisher : Address} {w : World}
    (h : Machine.Reach (contract H publisher) w) :
    w.mining.dedups.All ShareDedup.Counts := by
  obtain ⟨log, hlog⟩ := (dedupTables_of_contract h).withGhost []
    fun s _ s' log => s.created s' ++ log
  exact (tableBooks_of_reach hlog).counts

end M1n3Protocol
