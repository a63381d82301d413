/-
What the recycle paths return to the vault, and who it is owed to.

# One more book

Funding takes out of the vault exactly one record's amount, and a sweep
puts the rest of a batch or redemption back without any record owing it.
`returnedBy` is what a call sweeps back; beside a run, their total is all
that `SweepBooks` needs to say what the vault holds.

# What it comes to

Where exactly the amounts of the confirmed records have arrived, the vault
and its uncollected credit are worth what is still owed and everything
ever swept back. What is swept back stays.
-/
import M1n3Protocol.Proofs.Vault

namespace M1n3Protocol

open Checked

variable {H : HashFn} {publisher : Address}

/-- What the call sweeps back to the vault. -/
def returnedBy (w : World) : Call → Nat
  | .hashi (.recycleExpiredToVault id) =>
      (w.hashi.batches.get id).elim 0 fun b => b.balance.toNat
  | .hashi (.recycleExpiredRedemption id) =>
      (w.hashi.redemptions.get id).elim 0 fun r => r.balance.toNat
  | _ => 0

/-- The contract, and the total swept back. -/
def sweepsTotalled (H : HashFn) (publisher : Address) :
    Machine Abort (World × Nat) Call :=
  (contract H publisher).withGhost 0 fun w c _ n => n + returnedBy w c

/-- What came in or came back is in the vault or was once taken out for a
batch or a redemption. -/
def SweepBooks (h : Hashi) (n : Nat) : Prop :=
  h.vault.hbtc.toNat + (h.batches.sum fun b => b.totalSats.toNat)
      + (h.redemptions.sum fun r => r.totalSats.toNat)
    = h.receivedOutside + n

theorem SweepBooks.step {w w' : World} {c : Call} {n : Nat}
    (hb : SweepBooks w.hashi n) (hs : World.HashiStep w c w') :
    SweepBooks w'.hashi (n + returnedBy w c) := by
  unfold SweepBooks at hb ⊢
  cases hs with
  | initializeConfig | config | mark | confirm | record | transferCoin =>
      exact hb
  | @credit call amount _ _ _ _ hcall =>
      rcases hcall with rfl | rfl <;> exact hb
  | receive hget hok =>
      obtain ⟨hbal, -⟩ := depositHbtc_ok hok
      simp only [returnedBy]
      omega
  | collect hok hacc =>
      obtain ⟨hbal, -⟩ := depositHbtc_ok hok
      simp only [returnedBy]
      omega
  | openBatch hhist hget hok =>
      obtain ⟨-, htake, -⟩ := takeExactHbtc_ok hok.take_ok
      simp only [returnedBy, ObjStore.sum_alloc]
      rw [hok.batch_total]
      omega
  | openRedemption hcap hhist hget hok =>
      obtain ⟨-, htake, -⟩ := takeExactHbtc_ok hok.take_ok
      simp only [returnedBy, ObjStore.sum_alloc]
      rw [hok.total_eq]
      omega
  | @claim _ _ _ b b' _ _ _ _ hget hr hhist hok =>
      have htot := ObjStore.sum_put hget b' fun b => b.totalSats.toNat
      rw [hok.total_eq] at htot
      simp only [returnedBy]
      omega
  | @redeem _ _ _ _ _ _ out hget hcap hcoin hrcap hkcap hok =>
      have htot := ObjStore.sum_put hget out.redemption
        fun r => r.totalSats.toNat
      rw [hok.total_eq] at htot
      simp only [returnedBy]
      omega
  | @recycleBatch bid b _ _ _ hget hok =>
      obtain ⟨-, -, hsweep, rfl, -⟩ := recycleExpiredToVault_ok hok
      obtain ⟨hbal, -⟩ := sweepToVault_ok hsweep
      have htot := ObjStore.sum_put hget
        { b with balance := 0, status := .expired }
        fun b => b.totalSats.toNat
      simp only [returnedBy, hget, Option.elim_some]
      dsimp only at htot
      omega
  | @recycleRedemption did r _ _ hget hok =>
      obtain ⟨-, -, hsweep, rfl⟩ := recycleExpiredRedemption_ok hok
      obtain ⟨hbal, -⟩ := sweepToVault_ok hsweep
      have htot := ObjStore.sum_put hget
        { r with balance := 0, isExpired := true }
        fun r => r.totalSats.toNat
      simp only [returnedBy, hget, Option.elim_some]
      dsimp only at htot
      omega

/-- A call off the hBTC side sweeps nothing. -/
theorem returnedBy_of_off {w : World} {c : Call} (hoff : c.onHashi = false) :
    returnedBy w c = 0 := by
  cases c with
  | hashi => cases hoff
  | _ => rfl

theorem sweepBooks_of_reach {w : World} {n : Nat}
    (h : Machine.Reach (sweepsTotalled H publisher) (w, n)) :
    SweepBooks w.hashi n := by
  refine Machine.ReachVia.withGhost_invariant
    (I := fun w n => SweepBooks w.hashi n)
    (show SweepBooks .init 0 from rfl) ?_ h
  intro w c w' n _ hb _ hexec
  rcases World.exec_hashi hexec with ⟨-, hstep⟩ | ⟨hoff, hsame, -⟩
  · exact hb.step hstep
  · rw [returnedBy_of_off hoff, hsame]
    exact hb

/-- What was swept back is never taken off the total. -/
theorem swept_le {p q : World × Nat}
    (h : (sweepsTotalled H publisher).Leads p q) : p.2 ≤ q.2 := by
  refine Machine.ReachVia.invariant (I := fun q => p.2 ≤ q.2)
    (Nat.le_refl _) ?_ h
  intro s c t hs _ hstep
  have hstep : (sweepsTotalled H publisher).step s c = .ok t := hstep
  obtain ⟨-, ht⟩ := Machine.withGhost_step.mp hstep
  rw [← ht]
  exact Nat.le_add_right_of_le hs

/-- Exactly the amounts of the confirmed records have arrived, collected
or not. -/
def Hashi.arrivedExact (h : Hashi) : Prop :=
  h.accumulated.toNat + h.receivedOutside
    = h.records.sum RecordObject.confirmedSats

/-- Then the vault is worth what is owed and what was swept back. -/
theorem vault_worth {w : World} {n : Nat}
    (h : Machine.Reach (sweepsTotalled H publisher) (w, n))
    (hexact : w.hashi.arrivedExact) :
    w.hashi.vault.hbtc.toNat + w.hashi.accumulated.toNat
      = w.hashi.records.sum RecordObject.unfundedSats + n := by
  have hb : VaultBooks w.hashi := vaultBooks_of_reach h.of_withGhost
  have hsweep := sweepBooks_of_reach h
  have hfunded := hb.funded_eq
  have hsplit := hb.confirmed_split
  unfold Hashi.arrivedExact at hexact
  unfold SweepBooks at hsweep
  omega

/-- In every run in which exactly the amounts of the confirmed records
have arrived, the vault and its uncollected credit are worth the
confirmed unfunded records iff no recycle call of the run returned
anything; and otherwise they are worth that much more. -/
theorem stranded_iff_recycled {w : World} {n : Nat}
    (h : Machine.Reach (sweepsTotalled H publisher) (w, n))
    (hexact : w.hashi.arrivedExact) :
    (w.hashi.vault.hbtc.toNat + w.hashi.accumulated.toNat
        = w.hashi.records.sum RecordObject.unfundedSats ↔ n = 0)
      ∧ w.hashi.vault.hbtc.toNat + w.hashi.accumulated.toNat
        = w.hashi.records.sum RecordObject.unfundedSats + n := by
  have hworth := vault_worth h hexact
  refine ⟨?_, hworth⟩
  omega

instance (h : Hashi) : Decidable h.arrivedExact :=
  inferInstanceAs (Decidable (_ = _))

/-- After the funding above, before any sweep. -/
theorem stranded_iff_recycled_fundedRound :
    ∃ w, Machine.Reach (sweepsTotalled sha256 0) (w, 0)
      ∧ w.hashi.arrivedExact ∧ w.hashi.receivedOutside = 1000
      ∧ w.hashi.vault.hbtc.toNat + w.hashi.accumulated.toNat
        = w.hashi.records.sum RecordObject.unfundedSats := by
  have hrun : (sweepsTotalled sha256 0).endsIn fundedRound (fun p =>
      decide ((p.1.hashi.arrivedExact ∧ p.1.hashi.receivedOutside = 1000)
        ∧ p.2 = 0)) = true := by
    decide +kernel
  obtain ⟨⟨w, n⟩, hw, hcheck⟩ := Machine.reach_of_endsIn hrun
  obtain ⟨⟨hexact, hreceived⟩, hn⟩ := of_decide_eq_true hcheck
  dsimp only at hexact hreceived hn
  subst hn
  exact ⟨w, hw, hexact, hreceived, (stranded_iff_recycled hw hexact).1.mpr
    rfl⟩

/-- Nobody claims from the funded batch, and it is recycled at its
deadline. -/
def recycledRound : List Call :=
  fundedRound ++
  [.beginTx 5 0 2_592_005_000,
   .hashi (.recycleExpiredToVault 0)]

/-- The vault holds 1000 sats that no record is owed, and 1000 more than
what is owed in whatever comes after. -/
theorem recycled_stranded :
    ∃ w, Machine.Reach (sweepsTotalled sha256 0) (w, 1000)
      ∧ w.hashi.arrivedExact
      ∧ w.hashi.vault.hbtc.toNat = 1000
      ∧ w.hashi.records.sum RecordObject.unfundedSats = 0
      ∧ ∀ w' n', (sweepsTotalled sha256 0).Leads (w, 1000) (w', n') →
          w'.hashi.arrivedExact →
          w'.hashi.records.sum RecordObject.unfundedSats + 1000
            ≤ w'.hashi.vault.hbtc.toNat + w'.hashi.accumulated.toNat := by
  have hrun : (sweepsTotalled sha256 0).endsIn recycledRound (fun p =>
      decide ((p.1.hashi.arrivedExact ∧ p.1.hashi.vault.hbtc.toNat = 1000)
        ∧ p.1.hashi.records.sum RecordObject.unfundedSats = 0
        ∧ p.2 = 1000)) = true := by
    decide +kernel
  obtain ⟨⟨w, n⟩, hw, hcheck⟩ := Machine.reach_of_endsIn hrun
  obtain ⟨⟨hexact, hvault⟩, howed, hn⟩ := of_decide_eq_true hcheck
  dsimp only at hexact hvault howed hn
  subst hn
  refine ⟨w, hw, hexact, hvault, howed, fun w' n' hlater hexact' => ?_⟩
  have hmore : 1000 ≤ n' := swept_le hlater
  have hworth := vault_worth (hw.leads hlater) hexact'
  omega

end M1n3Protocol
