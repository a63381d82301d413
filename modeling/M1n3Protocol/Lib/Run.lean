/-
Infinite runs of a machine, and what comes about along them.

# Fairness

`Often p` says that `p` is the case again and again: what a run is assumed
to keep doing. `Run.leadsTo` is the rule for progress. A goal that each
step either reaches or leaves no further away, and that some steps bring
closer, comes about where those steps come again and again.

# From finite to infinite

A reached state in which some input changes nothing can be stayed in
forever (`exists_run_of_reach`), so a finite run that ends there is the
beginning of an infinite one.
-/
import M1n3Protocol.Lib.Machine

namespace Machine

variable {ε σ ι : Type _} {M : Machine ε σ ι}

/-- Again and again. -/
def Often (p : Nat → Prop) : Prop := ∀ n, ∃ m, n ≤ m ∧ p m

/-- A run that never ends. -/
structure Run (M : Machine ε σ ι) where
  states : Nat → σ
  inputs : Nat → ι
  init : states 0 = M.init
  step : ∀ n, M.step (states n) (inputs n) = .ok (states (n + 1))

namespace Run

variable (ρ : Run M)

theorem reach (n : Nat) : Reach M (ρ.states n) := by
  induction n with
  | zero =>
      rw [ρ.init]
      exact .init
  | succ n ih => exact .step (ρ.inputs n) ih trivial (ρ.step n)

/-- What every step keeps, from where it holds on. -/
theorem stable {P : σ → Prop}
    (hstep : ∀ s c s', P s → M.step s c = .ok s' → P s') {n m : Nat}
    (hn : P (ρ.states n)) (hle : n ≤ m) : P (ρ.states m) := by
  induction m, hle using Nat.le_induction with
  | base => exact hn
  | succ m _ ih => exact hstep _ _ _ ih (ρ.step m)

variable {P Q : σ → Prop} {C : σ → ι → Prop} {r : σ → Nat}

/-- Up to the next helpful step the goal is reached or no further away. -/
theorem rank_le
    (hstep : ∀ s c s', P s → M.step s c = .ok s' →
      Q s' ∨ P s' ∧ r s' ≤ r s ∧ (C s c → r s' < r s))
    {n m : Nat} (hn : P (ρ.states n)) (hle : n ≤ m) :
    (∃ k, n ≤ k ∧ Q (ρ.states k))
      ∨ P (ρ.states m) ∧ r (ρ.states m) ≤ r (ρ.states n) := by
  induction m, hle using Nat.le_induction with
  | base => exact .inr ⟨hn, Nat.le_refl _⟩
  | succ m hle ih =>
      rcases ih with hdone | ⟨hP, hrank⟩
      · exact .inl hdone
      · rcases hstep _ _ _ hP (ρ.step m) with hQ | ⟨hP', hrank', -⟩
        · exact .inl ⟨m + 1, Nat.le_succ_of_le hle, hQ⟩
        · exact .inr ⟨hP', Nat.le_trans hrank' hrank⟩

/-- Progress: what helps comes again and again, and the goal cannot come
closer forever. -/
theorem leadsTo
    (hstep : ∀ s c s', P s → M.step s c = .ok s' →
      Q s' ∨ P s' ∧ r s' ≤ r s ∧ (C s c → r s' < r s))
    (hfair : Often fun n => C (ρ.states n) (ρ.inputs n))
    {n : Nat} (hn : P (ρ.states n)) : ∃ m, n ≤ m ∧ Q (ρ.states m) := by
  induction hrank : r (ρ.states n) using Nat.strong_induction_on
    generalizing n with
  | _ k ih =>
      obtain ⟨m, hle, hhelp⟩ := hfair n
      rcases ρ.rank_le hstep hn hle with hdone | ⟨hP, hrank_m⟩
      · exact hdone
      · rcases hstep _ _ _ hP (ρ.step m) with hQ | ⟨hP', -, hlt⟩
        · exact ⟨m + 1, Nat.le_succ_of_le hle, hQ⟩
        · have hlt := hlt hhelp
          obtain ⟨k, hk, hQ⟩ := ih _ (by omega) hP' rfl
          exact ⟨k, by omega, hQ⟩

end Run

/-- A finite run, as its states and inputs in order. -/
theorem Reach.sequence {s : σ} (h : Reach M s) (c : ι) :
    ∃ (n : Nat) (states : Nat → σ) (inputs : Nat → ι),
      states 0 = M.init ∧ states n = s
        ∧ ∀ i, i < n → M.step (states i) (inputs i) = .ok (states (i + 1)) := by
  induction h with
  | init =>
      exact ⟨0, fun _ => M.init, fun _ => c, rfl, rfl,
        fun i hi => absurd hi (Nat.not_lt_zero i)⟩
  | @step s s' c' _ _ hstep ih =>
      obtain ⟨n, states, inputs, hinit, hend, hsteps⟩ := ih
      refine ⟨n + 1, fun i => if i ≤ n then states i else s',
        fun i => if i < n then inputs i else c', ?_, ?_, fun i hi => ?_⟩
      · exact (if_pos (Nat.zero_le n)).trans hinit
      · exact if_neg (Nat.not_succ_le_self n)
      · dsimp only
        rw [if_pos (Nat.le_of_lt_succ hi)]
        rcases Nat.lt_or_eq_of_le (Nat.le_of_lt_succ hi) with hlt | rfl
        · rw [if_pos hlt, if_pos (Nat.succ_le_of_lt hlt)]
          exact hsteps i hlt
        · rw [if_neg (Nat.lt_irrefl i), if_neg (Nat.not_succ_le_self i), hend]
          exact hstep

/-- Where an input changes nothing, a run can stay forever. -/
theorem exists_run_of_reach {s : σ} (h : Reach M s) {c : ι}
    (hstay : M.step s c = .ok s) :
    ∃ (ρ : Run M) (n : Nat), ∀ m, n ≤ m → ρ.states m = s ∧ ρ.inputs m = c := by
  obtain ⟨n, states, inputs, hinit, hend, hsteps⟩ := h.sequence c
  refine ⟨{
    states := fun i => if i < n then states i else s
    inputs := fun i => if i < n then inputs i else c
    init := ?_
    step := fun i => ?_ }, n, fun m hm => ?_⟩
  · rcases Nat.eq_zero_or_pos n with rfl | hpos
    · rw [if_neg (Nat.lt_irrefl 0), ← hend, hinit]
    · rw [if_pos hpos, hinit]
  · rcases Nat.lt_or_ge i n with hlt | hge
    · rw [if_pos hlt, if_pos hlt, hsteps i hlt]
      rcases Nat.lt_or_eq_of_le (Nat.succ_le_of_lt hlt) with hlt' | rfl
      · rw [if_pos hlt']
      · rw [if_neg (Nat.lt_irrefl _), hend]
    · rw [if_neg (Nat.not_lt.mpr hge), if_neg (Nat.not_lt.mpr hge),
        if_neg (Nat.not_lt.mpr (Nat.le_succ_of_le hge))]
      exact hstay
  · exact ⟨if_neg (Nat.not_lt.mpr hm), if_neg (Nat.not_lt.mpr hm)⟩

end Machine
