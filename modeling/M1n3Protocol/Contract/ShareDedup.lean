/-
`share_dedup.move`: the per-(miner, round) table of accepted share
hashes, and the registry that lets each pair have one table ever.

The dynamic fields of a `ShareDedup` are the list of hashes present,
each once. `count` is the counter the source keeps beside them.
-/
import M1n3Protocol.Contract.Miner

namespace M1n3Protocol

open Checked

structure ShareDedup where
  roundId : U64
  miner : Address
  count : U32
  hashes : List Bytes
  deriving DecidableEq, Repr

def ShareDedup.key (d : ShareDedup) : MinerRoundKey := ⟨d.miner, d.roundId⟩

-- ============================================================== entries

def createShareDedup (registry : List MinerRoundKey) (roundId : U64)
    (ctx : TxContext) : Except Abort (List MinerRoundKey × ShareDedup) := do
  let key : MinerRoundKey := ⟨ctx.sender, roundId⟩
  require (key ∉ registry) (.shareDedup .EAlreadyRegistered)
  return (key :: registry,
    { roundId, miner := ctx.sender, count := 0, hashes := [] })

/-- The loop of `close_share_dedup`: drop each listed hash that is
there. -/
def dropHashes (dedup : ShareDedup) : List Bytes → Except Abort ShareDedup
  | [] => pure dedup
  | h :: rest =>
      if h ∈ dedup.hashes then do
        let count ← subU dedup.count 1
        dropHashes { dedup with count, hashes := dedup.hashes.erase h } rest
      else
        dropHashes dedup rest

def closeShareDedup (dedup : ShareDedup) (hashesToRemove : List Bytes)
    (ctx : TxContext) : Except Abort ShareDedup := do
  require (dedup.miner = ctx.sender) (.shareDedup .ENotOwner)
  dropHashes dedup hashesToRemove

/-- `delete_share_dedup`: succeeds iff the object is deleted. -/
def deleteShareDedup (dedup : ShareDedup) (ctx : TxContext) :
    Except Abort Unit := do
  require (dedup.miner = ctx.sender) (.shareDedup .ENotOwner)
  require (dedup.count = 0) (.shareDedup .EDuplicateShare)

def checkAndRecord (dedup : ShareDedup) (hash : Bytes) :
    Except Abort ShareDedup := do
  require (hash ∉ dedup.hashes) (.shareDedup .EDuplicateShare)
  let count ← addU dedup.count 1
  return { dedup with count, hashes := hash :: dedup.hashes }

-- ======================================================= what they do

theorem createShareDedup_ok {reg reg' : List MinerRoundKey} {r : U64}
    {ctx : TxContext} {d : ShareDedup}
    (hok : createShareDedup reg r ctx = .ok (reg', d)) :
    d.key ∉ reg ∧ reg' = d.key :: reg
      ∧ d = { roundId := r, miner := ctx.sender, count := 0,
              hashes := [] } := by
  simp only [createShareDedup, bind_eq_ok, require_eq_ok, pure_eq_ok] at hok
  obtain ⟨-, hfresh, heq⟩ := hok
  injection heq with hreg hd
  subst hd
  exact ⟨hfresh, hreg.symm, rfl⟩

theorem checkAndRecord_ok {d d' : ShareDedup} {h : Bytes}
    (hok : checkAndRecord d h = .ok d') :
    h ∉ d.hashes ∧ d'.roundId = d.roundId ∧ d'.miner = d.miner
      ∧ d'.count.toNat = d.count.toNat + 1
      ∧ d'.hashes = h :: d.hashes := by
  simp only [checkAndRecord, bind_eq_ok, require_eq_ok, pure_eq_ok,
    add_eq_ok] at hok
  obtain ⟨-, hnew, c, hc, heq⟩ := hok
  subst heq
  exact ⟨hnew, rfl, rfl, hc, rfl⟩

/-- Dropping hashes keeps the owner and the round, drops only listed
hashes, and moves the counter with the list. -/
theorem dropHashes_ok : ∀ {hs : List Bytes} {d d' : ShareDedup},
    dropHashes d hs = .ok d' →
      d'.roundId = d.roundId ∧ d'.miner = d.miner
        ∧ d'.hashes.Sublist d.hashes
        ∧ (∀ h ∈ d.hashes, h ∉ hs → h ∈ d'.hashes)
        ∧ (d.count.toNat = d.hashes.length →
            d'.count.toNat = d'.hashes.length) := by
  intro hs
  induction hs with
  | nil =>
      intro d d' hok
      simp only [dropHashes, pure_eq_ok] at hok
      subst hok
      exact ⟨rfl, rfl, List.Sublist.refl _, fun _ h _ => h, id⟩
  | cons x rest ih =>
      intro d d' hok
      simp only [dropHashes] at hok
      split at hok
      case isFalse =>
        obtain ⟨hr, hm, hsub, hkeep, hcount⟩ := ih hok
        refine ⟨hr, hm, hsub, fun h hh hnot => ?_, hcount⟩
        exact hkeep h hh fun hin => hnot (List.mem_cons_of_mem x hin)
      case isTrue hx =>
        simp only [bind_eq_ok, sub_eq_ok] at hok
        obtain ⟨c, hc, hok⟩ := hok
        obtain ⟨hr, hm, hsub, hkeep, hcount⟩ := ih hok
        refine ⟨hr, hm, hsub.trans List.erase_sublist, fun h hh hnot => ?_, ?_⟩
        · have hne : h ≠ x := fun he => hnot (he ▸ List.mem_cons_self ..)
          refine hkeep h ((List.mem_erase_of_ne hne).mpr hh) fun hin => ?_
          exact hnot (List.mem_cons_of_mem x hin)
        · intro hd
          apply hcount
          have hlen := List.length_erase_of_mem hx
          have hone : (1 : U32).toNat = 1 := rfl
          show c.toNat = (d.hashes.erase x).length
          omega

theorem closeShareDedup_ok {d d' : ShareDedup} {hs : List Bytes}
    {ctx : TxContext} (hok : closeShareDedup d hs ctx = .ok d') :
    d.miner = ctx.sender ∧ dropHashes d hs = .ok d' := by
  simp only [closeShareDedup, bind_eq_ok, require_eq_ok] at hok
  obtain ⟨-, hm, hdrop⟩ := hok
  exact ⟨hm, hdrop⟩

theorem deleteShareDedup_ok {d : ShareDedup} {ctx : TxContext} {u : Unit}
    (hok : deleteShareDedup d ctx = .ok u) :
    d.miner = ctx.sender ∧ d.count.toNat = 0 := by
  simp only [deleteShareDedup, bind_eq_ok, require_eq_ok] at hok
  obtain ⟨-, hm, hc⟩ := hok
  exact ⟨hm, by rw [hc]; rfl⟩

end M1n3Protocol
