/-
Whether the keeper comes back to an event until its transaction has
succeeded.

# What a mark stands for

`seen_claims` and its two siblings are marked before anything is looked up
or sent, and no failure takes a mark back. So an event is acted on in one
tick and never again. The marks are right in the runs in which this one
time goes well, and in no others: `step_atLeastOnce` is about one tick,
`keeper_at_least_once` about all of them.

The fourth loop marks last, and owes nothing to any condition.
-/
import M1n3Protocol.Keeper.Keeper

namespace M1n3Protocol.Keeper

open Sweep

variable {args : Args}

-- ================================================================= the log

/-- For each of the three loops, the ids of the events read and of those
whose transaction succeeded. -/
structure Log where
  claims : Ledger Text
  roundFunds : Ledger U64
  slotPools : Ledger Text

def Log.empty : Log := ⟨⟨[], []⟩, ⟨[], []⟩, ⟨[], []⟩⟩

def Log.after (args : Args) (k : KeeperState) (t : Tick) (log : Log) : Log :=
  match t with
  | .blockFound page =>
      { log with
        claims := log.claims.after claimKey (claimAct args) (page.getD [])
          k.seenClaims }
  | .depositConfirmed page =>
      { log with
        roundFunds := log.roundFunds.after depositKey (depositAct args)
          (page.getD []) k.seenRoundFunds }
  | .slotBound page =>
      { log with
        slotPools := log.slotPools.after slotKey (slotAct args)
          (page.getD []) k.seenSlotPools }
  | .autoBind _ _ _ => log

/-- The keeper beside its log. -/
def logged (args : Args) : Machine Unit (KeeperState × Log) Tick :=
  (keeper args).withGhost .empty fun k t _ log => log.after args k t

/-- A mark stands for a transaction that succeeded, and no event that was
read has been left behind. -/
structure AtLeastOnce (k : KeeperState) (log : Log) : Prop where
  claims : log.claims.KeptUp k.seenClaims
  roundFunds : log.roundFunds.KeptUp k.seenRoundFunds
  slotPools : log.slotPools.KeptUp k.seenSlotPools

-- =========================================================== the condition

/-- The command is sent, and its transaction succeeds. -/
def goesThrough (args : Args) (answers : Answers) (call : MoveCall) : Bool :=
  !args.dryRun && answers.runShell call

def claimOk (args : Args) (item : SuiEvent × Answers) (claimId : Text) :
    Bool :=
  goesThrough args item.2 (openAccumulatorCall args claimId)

/-- The history is found, and the event names its record. -/
def depositOk (args : Args) (item : SuiEvent × Answers) (roundId : U64) :
    Bool :=
  match findRoundHistory item.2 roundId, item.1.text "record_id" with
  | .ok (some history), some depositRecord =>
      goesThrough args item.2 (fundRoundCall args history depositRecord)
  | _, _ => false

/-- The label names a slot, and no DeepBook flag is missing. -/
def slotOk (args : Args) (item : SuiEvent × Answers) (_capId : Text) :
    Bool :=
  (((item.1.parsed "label".toList).bind parseByteArray).bind
    (labelToHashshareType args.packageId)).any fun hsType =>
      (createDeepbookPoolCall args hsType).any (goesThrough args item.2)

/-- All goes well with every event a tick marks. -/
def Tick.clean (args : Args) (k : KeeperState) : Tick → Bool
  | .blockFound page =>
      Sweep.clean claimKey (claimOk args) (page.getD []) k.seenClaims
  | .depositConfirmed page =>
      Sweep.clean depositKey (depositOk args) (page.getD []) k.seenRoundFunds
  | .slotBound page =>
      Sweep.clean slotKey (slotOk args) (page.getD []) k.seenSlotPools
  | .autoBind _ _ _ => true

-- ================================================================= one act

theorem send_done {answers : Answers} {call : MoveCall} :
    send args answers call = .done ↔ goesThrough args answers call = true := by
  unfold send goesThrough
  cases args.dryRun <;> cases answers.runShell call <;> simp

theorem claimAct_done (item : SuiEvent × Answers) (claimId : Text) :
    claimAct args item claimId = .done ↔ claimOk args item claimId = true :=
  send_done

theorem depositAct_done (item : SuiEvent × Answers) (roundId : U64) :
    depositAct args item roundId = .done
      ↔ depositOk args item roundId = true := by
  unfold depositAct depositOk
  cases findRoundHistory item.2 roundId with
  | error e => simp
  | ok found =>
      cases found with
      | none => simp
      | some history =>
          cases item.1.text "record_id" with
          | none => simp
          | some depositRecord => exact send_done

theorem createDeepbookPool_done {answers : Answers} {hsType : Text} :
    createDeepbookPool args answers hsType = .done
      ↔ (createDeepbookPoolCall args hsType).any (goesThrough args answers)
        = true := by
  unfold createDeepbookPool
  cases createDeepbookPoolCall args hsType with
  | none => simp
  | some call => exact send_done

theorem slotAct_done (item : SuiEvent × Answers) (capId : Text) :
    slotAct args item capId = .done ↔ slotOk args item capId = true := by
  unfold slotAct slotOk
  cases (item.1.parsed "label".toList).bind parseByteArray with
  | none => simp
  | some label =>
      rw [Option.bind_some]
      dsimp only
      cases labelToHashshareType args.packageId label with
      | none => simp
      | some hsType => exact createDeepbookPool_done

-- ================================================================ one tick

/-- What succeeded is marked, in every run. -/
structure Marked (k : KeeperState) (log : Log) : Prop where
  claims : log.claims.Marked k.seenClaims
  roundFunds : log.roundFunds.Marked k.seenRoundFunds
  slotPools : log.slotPools.Marked k.seenSlotPools

/-- The fourth loop leaves the sets of the others alone. -/
theorem tickAutoBind_eq (args : Args) (k : KeeperState)
    (field : Option Json)
    (bindings : Option (List SuiEvent)) (runShell : MoveCall → Bool) :
    ∃ rounds, tickAutoBind args k field bindings runShell
      = { k with seenBoundRounds := rounds } := by
  unfold tickAutoBind
  split
  case h_1 =>
      split
      case isTrue => exact ⟨k.seenBoundRounds, rfl⟩
      case isFalse =>
          split
          case h_1 => exact ⟨k.seenBoundRounds, rfl⟩
          case h_2 =>
              split
              case isTrue => exact ⟨_, rfl⟩
              case isFalse => exact ⟨k.seenBoundRounds, rfl⟩
  case h_2 => exact ⟨k.seenBoundRounds, rfl⟩

theorem Marked.step {k : KeeperState} {log : Log} (h : Marked k log)
    (t : Tick) : Marked (tick args k t) (log.after args k t) := by
  obtain ⟨hclaims, hfunds, hpools⟩ := h
  cases t with
  | blockFound page => exact ⟨Ledger.Marked.after hclaims, hfunds, hpools⟩
  | depositConfirmed page =>
      exact ⟨hclaims, Ledger.Marked.after hfunds, hpools⟩
  | slotBound page => exact ⟨hclaims, hfunds, Ledger.Marked.after hpools⟩
  | autoBind field bindings runShell =>
      obtain ⟨rounds, heq⟩ := tickAutoBind_eq args k field bindings runShell
      show Marked (tickAutoBind args k field bindings runShell) log
      rw [heq]
      exact ⟨hclaims, hfunds, hpools⟩

/-- A tick keeps up exactly where all goes well in it. -/
theorem step_atLeastOnce {k : KeeperState} {log : Log}
    (h : AtLeastOnce k log) (hmarked : Marked k log) (t : Tick) :
    AtLeastOnce (tick args k t) (log.after args k t)
      ↔ t.clean args k = true := by
  obtain ⟨hclaims, hfunds, hpools⟩ := h
  cases t with
  | blockFound page =>
      rw [Tick.clean, ← hclaims.after_iff hmarked.claims claimAct_done]
      exact ⟨fun h => h.claims, fun h => ⟨h, hfunds, hpools⟩⟩
  | depositConfirmed page =>
      rw [Tick.clean, ← hfunds.after_iff hmarked.roundFunds depositAct_done]
      exact ⟨fun h => h.roundFunds, fun h => ⟨hclaims, h, hpools⟩⟩
  | slotBound page =>
      rw [Tick.clean, ← hpools.after_iff hmarked.slotPools slotAct_done]
      exact ⟨fun h => h.slotPools, fun h => ⟨hclaims, hfunds, h⟩⟩
  | autoBind field bindings runShell =>
      obtain ⟨rounds, heq⟩ := tickAutoBind_eq args k field bindings runShell
      refine ⟨fun _ => rfl, fun _ => ?_⟩
      show AtLeastOnce (tickAutoBind args k field bindings runShell) log
      rw [heq]
      exact ⟨hclaims, hfunds, hpools⟩

-- ==================================================================== runs

theorem marked {p : KeeperState × Log} (h : Machine.Reach (logged args) p) :
    Marked p.1 p.2 := by
  refine Machine.ReachVia.withGhost_invariant (I := Marked) ?_ ?_ h
  · refine ⟨?_, ?_, ?_⟩ <;> intro k hk <;> cases hk
  · intro k t k' log _ hI _ hstep
    cases hstep
    exact hI.step t

/-- In the runs whose ticks all go well with what they mark, every mark
stands for a transaction that succeeded, and nothing read is left
behind. -/
theorem keeper_at_least_once {p : KeeperState × Log}
    (h : Machine.ReachVia (logged args) (fun p t => t.clean args p.1 = true)
      p) : AtLeastOnce p.1 p.2 := by
  refine h.invariant_given (I := fun p => AtLeastOnce p.1 p.2)
    (J := fun p => Marked p.1 p.2) (fun q hq => marked hq.reach) ?_ ?_
  · refine ⟨?_, ?_, ?_⟩ <;> intro k hk <;>
      rcases hk with hk | hk <;> cases hk
  · intro q t q' hmarked _ hI hclean hstep
    obtain ⟨hstep, hlog⟩ := Machine.withGhost_step.mp hstep
    injection hstep with htick
    rw [← hlog, ← htick]
    exact (step_atLeastOnce hI hmarked t).mpr hclean

/-- A keeper of package `0x5` and pool `0x7`, without DeepBook. -/
def poolArgs : Args where
  packageId := "0x5".toList
  poolId := "0x7".toList
  registryId := "0x8".toList
  vaultId := "0x9".toList
  hbtcCoinType := "0xb::btc::BTC".toList
  hashShareRegistryId := none
  gasBudget := 200000000
  dryRun := false
  deepbookPackageId := none
  deepbookRegistryId := none
  deepbookQuoteCoinType := none
  deepbookDeepCoinId := none
  deepbookTickSize := 1
  deepbookLotSize := 1
  deepbookMinSize := 1

/-- A page with the block of claim `0xc1`, whose transaction ends so. -/
def blockFoundPage (ok : Bool) : Page :=
  [({ parsed := fun field =>
        if field = "claim_id".toList then some (.string "0xc1".toList)
        else none
      txDigest := "D1".toList },
    { roundClosed := none
      transactionBlock := fun _ => none
      runShell := fun _ => ok })]

theorem keeper_at_least_once_blockFound :
    ∃ p : KeeperState × Log, AtLeastOnce p.1 p.2
      ∧ p.1.seenClaims = ["0xc1".toList] := by
  have hrun : (logged poolArgs).endsFrom
      (fun p t => t.clean poolArgs p.1)
      (fun p => p.1.seenClaims = ["0xc1".toList])
      [.blockFound (some (blockFoundPage true)), .blockFound none,
        .blockFound (some (blockFoundPage false))] (logged poolArgs).init
      = true := by
    decide +kernel
  obtain ⟨p, hp, hcheck⟩ :=
    Machine.reachVia_of_endsFrom (fun _ _ h => h) .init hrun
  exact ⟨p, keeper_at_least_once hp, of_decide_eq_true hcheck⟩

/-- The transaction fails once, and would succeed in the next tick: the
claim stays marked, and its accumulator is never opened. -/
theorem failed_claim_never_retried :
    ∃ p : KeeperState × Log, Machine.Reach (logged poolArgs) p
      ∧ "0xc1".toList ∈ p.1.seenClaims ∧ "0xc1".toList ∉ p.2.claims.done
      ∧ ¬ AtLeastOnce p.1 p.2 := by
  have hrun : (logged poolArgs).endsIn
      [.blockFound (some (blockFoundPage false)),
        .blockFound (some (blockFoundPage true))]
      (fun p => p.1.seenClaims = ["0xc1".toList] ∧ p.2.claims.done = [])
      = true := by
    decide +kernel
  obtain ⟨p, hp, hcheck⟩ := Machine.reach_of_endsIn hrun
  obtain ⟨hseen, hdone⟩ := of_decide_eq_true hcheck
  have hmem : "0xc1".toList ∈ p.1.seenClaims := by
    rw [hseen]
    exact List.mem_cons_self
  have hnot : "0xc1".toList ∉ p.2.claims.done := by
    rw [hdone]
    exact List.not_mem_nil
  exact ⟨p, hp, hmem, hnot, fun h => hnot (h.claims _ (.inl hmem))⟩

end M1n3Protocol.Keeper
