/-
Journals: what happened to each of a machine's objects, in order.

# What a journal is

A journal views the machine's state as one state per object, and reads
off each step the object that moved and its move. `moved` and `quiet`
tie the two together: the object takes the step `Move` says, and
everything else stays. A machine whose objects follow `Move` is thereby a
refinement of it, object by object.

# What it is good for

`kept` is the machine beside its journal. Every object's page is a trace
of `Move` from its first state to its present one (`trace`), so whatever
such traces obey, every object does in every run. `posted` is for the
rest: what a posted move says about the machine's state at large, and
goes on saying.
-/
import M1n3Protocol.Lib.Machine

namespace Machine

variable {ε σ ι κ μ α : Type _}

structure Journal (M : Machine ε σ ι) (κ μ α : Type _) where
  view : σ → κ → α
  post : σ → ι → σ → Option (κ × μ)
  Move : κ → α → μ → α → Prop
  quiet : ∀ s c s', M.step s c = .ok s' → post s c s' = none →
    view s' = view s
  moved : ∀ s c s' k m, M.step s c = .ok s' → post s c s' = some (k, m) →
    Move k (view s k) m (view s' k) ∧ ∀ j, j ≠ k → view s' j = view s j

namespace Journal

variable [DecidableEq κ]

/-- The pages after a step that posted this. -/
def write (pages : κ → List μ) : Option (κ × μ) → κ → List μ
  | none => pages
  | some (k, m) => fun j => if j = k then pages j ++ [m] else pages j

theorem write_eq_or (pages : κ → List μ) (o : Option (κ × μ)) (k : κ) :
    write pages o k = pages k
      ∨ ∃ m, o = some (k, m) ∧ write pages o k = pages k ++ [m] := by
  cases o with
  | none => exact .inl rfl
  | some km =>
      obtain ⟨j, m⟩ := km
      by_cases hk : k = j
      · subst hk
        exact .inr ⟨m, rfl, if_pos rfl⟩
      · exact .inl (if_neg hk)

variable {M : Machine ε σ ι}

/-- The machine beside its journal. -/
def kept (J : Journal M κ μ α) : Machine ε (σ × (κ → List μ)) ι :=
  M.withGhost (fun _ => []) fun s c s' pages => write pages (J.post s c s')

/-- Each page is a trace of its object's moves. -/
theorem trace {J : Journal M κ μ α} {p : σ × (κ → List μ)}
    (h : Reach J.kept p) (k : κ) :
    Trace (J.Move k) (J.view M.init k) (p.2 k) (J.view p.1 k) := by
  refine ReachVia.invariant
    (I := fun p =>
      Trace (J.Move k) (J.view M.init k) (p.2 k) (J.view p.1 k))
    (.nil _) ?_ h
  rintro p c q ih - hs
  obtain ⟨hstep, hpages⟩ := withGhost_step.mp hs
  rw [← hpages]
  cases hpost : J.post p.1 c q.1 with
  | none =>
      rw [J.quiet _ _ _ hstep hpost]
      exact ih
  | some km =>
      obtain ⟨j, m⟩ := km
      obtain ⟨hmove, hother⟩ := J.moved _ _ _ _ _ hstep hpost
      by_cases hk : k = j
      · subst hk
        simp only [write, if_pos]
        exact ih.snoc hmove
      · simp only [write, if_neg hk]
        rw [hother k hk]
        exact ih

/-- A property of the state and a posted move, true when the move is
posted and kept by every step, holds of all that was posted. -/
theorem posted {J : Journal M κ μ α} {I : σ → Prop} {P : σ → κ → μ → Prop}
    (hI : ∀ s, Reach M s → I s)
    (hkeep : ∀ s c s' k m, I s → M.step s c = .ok s' → P s k m → P s' k m)
    (hnew : ∀ s c s' k m, I s → M.step s c = .ok s' →
      J.post s c s' = some (k, m) → P s' k m)
    {p : σ × (κ → List μ)} (h : Reach J.kept p) :
    ∀ k, ∀ m ∈ p.2 k, P p.1 k m := by
  refine ReachVia.invariant_given (I := fun p => ∀ k, ∀ m ∈ p.2 k, P p.1 k m)
    (J := fun p => I p.1) (fun p hp => hI _ (Reach.of_withGhost hp)) ?_ ?_ h
  · intro k m hm
    cases hm
  · rintro p c q hinv - ih - hs k m hm
    obtain ⟨hstep, hpages⟩ := withGhost_step.mp hs
    rw [← hpages] at hm
    rcases write_eq_or p.2 (J.post p.1 c q.1) k with heq | ⟨m', hpost, heq⟩
    · rw [heq] at hm
      exact hkeep _ _ _ _ _ hinv hstep (ih k m hm)
    · rw [heq, List.mem_append, List.mem_singleton] at hm
      rcases hm with hm | rfl
      · exact hkeep _ _ _ _ _ hinv hstep (ih k m hm)
      · exact hnew _ _ _ _ _ hinv hstep hpost

end Journal

end Machine
