/-
Machines with a partial step function, their runs, and the induction
rules that carry an invariant along a run.

# Runs under a condition

`ReachVia M ok` collects the states reached by runs whose every step
satisfies `ok` in the state it starts from. `Reach M` is the case of no
condition. An invariant is proved once, for one step, and the rules
below extend it to every run: `invariant` for an inductive invariant,
`invariant_given` where the step argument leans on another fact already
known of every state of the same runs.

# Ghosts

`withGhost` runs a machine beside a log that each step writes and none
reads. Forgetting the log gives back the run (`ReachVia.of_withGhost`),
and every run has its log (`ReachVia.withGhost`), so what is proved of
the logs is proved of the machine's runs. `withGhost_invariant` carries a
property of state and log along them.

# Continuations

`startAt` is the same machine from another state: what it reaches is what
a run can still come to from there. `Leads` relates the two states.

# Traces

`Trace R` is a run of a labelled step relation, its labels in order: what
one step of a machine amounts to, seen as a sequence of smaller steps.
`Trace.invariant` carries a property of the state and the labels still
to come, so a condition on later labels can be kept along the way, and
`Trace.conserved` adds up what each step brings in and takes out.
-/
import Mathlib.Algebra.BigOperators.Group.List.Basic
import Mathlib.Algebra.Ring.Nat
import Mathlib.Tactic.Common

/-- An initial state and a step that may be refused. -/
structure Machine (ε σ ι : Type _) where
  init : σ
  step : σ → ι → Except ε σ

namespace Machine

variable {ε σ ι : Type _} {M : Machine ε σ ι}

/-- States reached by runs whose every step is allowed by `ok`. -/
inductive ReachVia (M : Machine ε σ ι) (ok : σ → ι → Prop) : σ → Prop
  | init : ReachVia M ok M.init
  | step {s s' : σ} (c : ι) (hs : ReachVia M ok s) (hok : ok s c)
      (hstep : M.step s c = .ok s') : ReachVia M ok s'

/-- States reached by any run. -/
def Reach (M : Machine ε σ ι) (s : σ) : Prop :=
  ReachVia M (fun _ _ => True) s

/-- Whether a run from `s` takes every input, each allowed by `okb` where
it comes, and ends in a state that passes `check`. -/
def endsFrom (M : Machine ε σ ι) (okb : σ → ι → Bool) (check : σ → Bool) :
    List ι → σ → Bool
  | [], s => check s
  | c :: cs, s =>
      okb s c && match M.step s c with
        | .ok s' => M.endsFrom okb check cs s'
        | .error _ => false

/-- A run from the initial state, under no condition. -/
def endsIn (M : Machine ε σ ι) (cs : List ι) (check : σ → Bool) : Bool :=
  M.endsFrom (fun _ _ => true) check cs M.init

/-- A weaker condition reaches more. -/
theorem ReachVia.mono {ok ok' : σ → ι → Prop} {s : σ}
    (h : ReachVia M ok s) (himp : ∀ s c, ok s c → ok' s c) :
    ReachVia M ok' s := by
  induction h with
  | init => exact .init
  | step c _ hok hstep ih => exact .step c ih (himp _ c hok) hstep

theorem ReachVia.reach {ok : σ → ι → Prop} {s : σ}
    (h : ReachVia M ok s) : Reach M s :=
  h.mono fun _ _ _ => trivial

/-- The invariant rule. -/
theorem ReachVia.invariant {ok : σ → ι → Prop} {I : σ → Prop}
    (hinit : I M.init)
    (hstep : ∀ s c s', I s → ok s c → M.step s c = .ok s' → I s')
    {s : σ} (h : ReachVia M ok s) : I s := by
  induction h with
  | init => exact hinit
  | step c _ hok hs ih => exact hstep _ c _ ih hok hs

/-- The invariant rule, with a fact `J` known of every state of the same
runs at hand before and after the step. -/
theorem ReachVia.invariant_given {ok : σ → ι → Prop} {I J : σ → Prop}
    (hJ : ∀ s, ReachVia M ok s → J s) (hinit : I M.init)
    (hstep : ∀ s c s', J s → J s' → I s → ok s c →
      M.step s c = .ok s' → I s')
    {s : σ} (h : ReachVia M ok s) : I s := by
  induction h with
  | init => exact hinit
  | step c hr hok hs ih =>
      exact hstep _ c _ (hJ _ hr) (hJ _ (.step c hr hok hs)) ih hok hs

/-- A run from a reached state that ends well reaches such a state. -/
theorem reachVia_of_endsFrom {ok : σ → ι → Prop} {okb : σ → ι → Bool}
    {check : σ → Bool} (hok : ∀ s c, okb s c = true → ok s c) :
    ∀ {cs : List ι} {s : σ}, ReachVia M ok s →
      M.endsFrom okb check cs s = true →
      ∃ s', ReachVia M ok s' ∧ check s' = true := by
  intro cs
  induction cs with
  | nil =>
      intro s hs h
      exact ⟨s, hs, h⟩
  | cons c cs ih =>
      intro s hs h
      rw [endsFrom, Bool.and_eq_true] at h
      obtain ⟨hc, h⟩ := h
      split at h
      case h_1 s' hstep => exact ih (.step c hs (hok s c hc) hstep) h
      case h_2 => cases h

theorem reach_of_endsIn {cs : List ι} {check : σ → Bool}
    (h : M.endsIn cs check = true) : ∃ s, Reach M s ∧ check s = true :=
  reachVia_of_endsFrom (fun _ _ _ => trivial) .init h

/-- The machine with its inputs chosen from those of another kind and the
state. -/
def withInputs {κ : Type _} (M : Machine ε σ ι) (f : σ → κ → ι) :
    Machine ε σ κ where
  init := M.init
  step s k := M.step s (f s k)

theorem ReachVia.of_withInputs {κ : Type _} {f : σ → κ → ι}
    {ok : σ → ι → Prop} {s : σ}
    (h : ReachVia (M.withInputs f) (fun s k => ok s (f s k)) s) :
    ReachVia M ok s := by
  induction h with
  | init => exact .init
  | step k _ hok hs ih => exact .step (f _ k) ih hok hs

-- ================================================================ ghosts

variable {γ : Type _}

/-- The machine beside a log that `record` extends after each step, from
the state before, the input and the state after. -/
def withGhost (M : Machine ε σ ι) (g₀ : γ)
    (record : σ → ι → σ → γ → γ) : Machine ε (σ × γ) ι where
  init := (M.init, g₀)
  step p c := (M.step p.1 c).map fun s => (s, record p.1 c s p.2)

theorem withGhost_step {g₀ : γ} {record : σ → ι → σ → γ → γ} {p q : σ × γ}
    {c : ι} : (M.withGhost g₀ record).step p c = .ok q
      ↔ M.step p.1 c = .ok q.1 ∧ record p.1 c q.1 p.2 = q.2 := by
  unfold withGhost
  dsimp only
  cases M.step p.1 c with
  | error e => simp [Except.map]
  | ok s =>
      obtain ⟨t, h⟩ := q
      simp only [Except.map, Except.ok.injEq, Prod.mk.injEq]
      constructor
      · rintro ⟨rfl, h⟩
        exact ⟨rfl, h⟩
      · rintro ⟨rfl, h⟩
        exact ⟨rfl, h⟩

/-- Without its log, a logged run is a run. -/
theorem ReachVia.of_withGhost {ok : σ → ι → Prop} {g₀ : γ}
    {record : σ → ι → σ → γ → γ} {p : σ × γ}
    (h : ReachVia (M.withGhost g₀ record) (fun p c => ok p.1 c) p) :
    ReachVia M ok p.1 := by
  induction h with
  | init => exact .init
  | step c _ hok hstep ih =>
      exact .step c ih hok (withGhost_step.mp hstep).1

/-- Every run can be logged. -/
theorem ReachVia.withGhost {ok : σ → ι → Prop} {s : σ} (g₀ : γ)
    (record : σ → ι → σ → γ → γ) (h : ReachVia M ok s) :
    ∃ g, ReachVia (M.withGhost g₀ record) (fun p c => ok p.1 c) (s, g) := by
  induction h with
  | init => exact ⟨g₀, .init⟩
  | @step s s' c _ hok hstep ih =>
      obtain ⟨g, hg⟩ := ih
      refine ⟨record s c s' g, .step c hg hok ?_⟩
      exact withGhost_step.mpr ⟨hstep, rfl⟩

theorem Reach.of_withGhost {g₀ : γ} {record : σ → ι → σ → γ → γ} {p : σ × γ}
    (h : Reach (M.withGhost g₀ record) p) : Reach M p.1 := by
  have hrun : ReachVia (M.withGhost g₀ record)
      (fun p c => (fun _ _ => True) p.1 c) p := h
  exact hrun.of_withGhost

theorem Reach.withGhost {s : σ} (g₀ : γ) (record : σ → ι → σ → γ → γ)
    (h : Reach M s) : ∃ g, Reach (M.withGhost g₀ record) (s, g) :=
  ReachVia.withGhost g₀ record h

/-- The invariant rule for logged runs. A step starts where a run of the
machine itself comes, so what is known of those is at hand. -/
theorem ReachVia.withGhost_invariant {ok : σ × γ → ι → Prop} {g₀ : γ}
    {record : σ → ι → σ → γ → γ} {I : σ → γ → Prop} (hinit : I M.init g₀)
    (hstep : ∀ s c s' g, Reach M s → I s g → ok (s, g) c →
      M.step s c = .ok s' → I s' (record s c s' g))
    {p : σ × γ} (h : ReachVia (M.withGhost g₀ record) ok p) :
    I p.1 p.2 := by
  induction h with
  | init => exact hinit
  | @step p q c hp hok hs ih =>
      obtain ⟨hs, hlog⟩ := withGhost_step.mp hs
      have hreach : Reach M p.1 := Reach.of_withGhost hp.reach
      have hI := hstep p.1 c q.1 p.2 hreach ih hok hs
      rw [hlog] at hI
      exact hI

-- ========================================================= continuations

/-- The machine from `s` on. -/
def startAt (M : Machine ε σ ι) (s : σ) : Machine ε σ ι :=
  { M with init := s }

/-- A run can be continued. -/
theorem ReachVia.trans {ok : σ → ι → Prop} {s t : σ} (h : ReachVia M ok s)
    (h' : ReachVia (M.startAt s) ok t) : ReachVia M ok t := by
  induction h' with
  | init => exact h
  | step c _ hok hstep ih => exact .step c ih hok hstep

/-- A run that is at `s` can come to `t`. -/
def Leads (M : Machine ε σ ι) (s t : σ) : Prop := Reach (M.startAt s) t

theorem Leads.refl (s : σ) : Leads M s s := .init

theorem Leads.call {s t : σ} (c : ι) (h : M.step s c = .ok t) :
    Leads M s t :=
  .step c .init trivial h

theorem Leads.trans {s t u : σ} (h : Leads M s t) (h' : Leads M t u) :
    Leads M s u :=
  ReachVia.trans (M := M.startAt s) h h'

theorem Reach.leads {s t : σ} (h : Reach M s) (h' : Leads M s t) :
    Reach M t :=
  ReachVia.trans h h'

end Machine

-- =============================================================== traces

/-- A run of a labelled step relation. -/
inductive Trace {σ ι : Type _} (R : σ → ι → σ → Prop) :
    σ → List ι → σ → Prop
  | nil (s : σ) : Trace R s [] s
  | cons {s t u : σ} {l : ι} {ls : List ι} (h : R s l t)
      (rest : Trace R t ls u) : Trace R s (l :: ls) u

namespace Trace

variable {ε α σ ι : Type _} {R : σ → ι → σ → Prop}

theorem single {s t : σ} {l : ι} (h : R s l t) : Trace R s [l] t :=
  .cons h (.nil t)

theorem eq_of_nil {s t : σ} (h : Trace R s [] t) : t = s := by
  cases h
  rfl

theorem of_single {s t : σ} {l : ι} (h : Trace R s [l] t) : R s l t := by
  cases h with
  | cons hR rest => exact (eq_of_nil rest) ▸ hR

/-- A property of the state and the labels to come, kept by each step,
holds at the end with no label to come. -/
theorem invariant {P : σ → List ι → Prop}
    (hstep : ∀ s l ls t, P s (l :: ls) → R s l t → P t ls)
    {s t : σ} {ls : List ι} (h : Trace R s ls t) (hs : P s ls) : P t [] := by
  induction h with
  | nil => exact hs
  | cons hR _ ih => exact ih (hstep _ _ _ _ hs hR)

/-- The same, for a property that each step keeps whatever its label. -/
theorem preserves {P : σ → Prop} (hstep : ∀ s l t, P s → R s l t → P t)
    {s t : σ} {ls : List ι} (h : Trace R s ls t) (hs : P s) : P t :=
  h.invariant (P := fun s _ => P s) (fun s l _ t => hstep s l t) hs

/-- The same along labels that all satisfy `Q`. -/
theorem preserves_of {P : σ → Prop} {Q : ι → Prop}
    (hstep : ∀ s l t, Q l → P s → R s l t → P t) {s t : σ} {ls : List ι}
    (h : Trace R s ls t) (hall : ∀ l ∈ ls, Q l) (hs : P s) : P t := by
  refine (h.invariant (P := fun s ls => P s ∧ ∀ l ∈ ls, Q l) ?_
    ⟨hs, hall⟩).1
  rintro s l ls t ⟨hp, hall⟩ hR
  exact ⟨hstep s l t (hall l (List.mem_cons_self ..)) hp hR,
    fun l' hl' => hall l' (List.mem_cons_of_mem _ hl')⟩

/-- What each step says of its label, from a property of the state it
starts in, holds of all labels. -/
theorem labels {P : σ → Prop} {Q : ι → Prop}
    (hstep : ∀ s l t, P s → R s l t → P t ∧ Q l) {s t : σ} {ls : List ι}
    (h : Trace R s ls t) (hs : P s) : ∀ l ∈ ls, Q l := by
  induction h with
  | nil => exact fun _ hl => by cases hl
  | cons hR _ ih =>
      obtain ⟨ht, hl⟩ := hstep _ _ _ hs hR
      intro l hmem
      rcases List.mem_cons.mp hmem with rfl | hmem
      · exact hl
      · exact ih ht l hmem

/-- A trace, and one more step. -/
theorem snoc {s t u : σ} {l : ι} {ls : List ι} (h : Trace R s ls t)
    (hR : R t l u) : Trace R s (ls ++ [l]) u := by
  induction h with
  | nil => exact .single hR
  | cons hfirst _ ih => exact .cons hfirst (ih hR)

/-- A trace can be cut anywhere. -/
theorem split {s u : σ} {ls ls' : List ι} (h : Trace R s (ls ++ ls') u) :
    ∃ t, Trace R s ls t ∧ Trace R t ls' u := by
  induction ls generalizing s with
  | nil => exact ⟨s, .nil s, h⟩
  | cons l ls ih =>
      cases h with
      | cons hR rest =>
          obtain ⟨t, hleft, hright⟩ := ih rest
          exact ⟨t, .cons hR hleft, hright⟩

/-- What is held, and what came in and went out on the way. -/
theorem conserved {held : σ → Nat} {inflow outflow : ι → Nat}
    (hstep : ∀ s l t, R s l t → held t + outflow l = held s + inflow l)
    {s t : σ} {ls : List ι} (h : Trace R s ls t) :
    held t + (ls.map outflow).sum = held s + (ls.map inflow).sum := by
  induction h with
  | nil => rfl
  | cons hR _ ih =>
      have := hstep _ _ _ hR
      simp only [List.map_cons, List.sum_cons]
      omega

/-- A fold of aborting passes, each of them a step, is a trace. -/
theorem of_foldlM {f : σ → α → Except ε σ} {label : α → ι}
    (hf : ∀ s a t, f s a = .ok t → R s (label a) t) :
    ∀ {l : List α} {s t : σ}, l.foldlM f s = .ok t →
      Trace R s (l.map label) t := by
  intro l
  induction l with
  | nil =>
      intro s t h
      cases h
      exact .nil s
  | cons a l ih =>
      intro s t h
      rw [List.foldlM_cons] at h
      cases hfa : f s a with
      | error e =>
          rw [hfa] at h
          cases h
      | ok u =>
          rw [hfa] at h
          exact .cons (hf s a u hfa) (ih h)

end Trace
