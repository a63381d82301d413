/-
Loops that mark an item before they act on it.

# One pass

A pass goes through the items in order. An item without a key is passed
over, and so is one whose key is marked; any other key is marked first,
and the item is acted on then. Acting may be done, may be dropped, after
which the next item follows, or may stop the pass.

# What marking first costs

Nothing takes a mark back. So a key is marked and not done as soon as one
act comes to anything else, and `KeptUp.after_iff` says that this is the
only way: what is marked stays within what is done exactly along passes
that are `clean`, `ok` saying beforehand which acts will be done.
-/
import Mathlib.Data.List.Basic
import Mathlib.Tactic.Common

namespace Sweep

variable {ι κ : Type _} [DecidableEq κ]

inductive Outcome
  | done
  | dropped
  | stopped
deriving DecidableEq

/-- What a pass leaves: the marks, and the keys done in it. -/
structure Result (κ : Type _) where
  seen : List κ
  done : List κ

def pass (key : ι → Option κ) (act : ι → κ → Outcome) :
    List ι → List κ → Result κ
  | [], seen => ⟨seen, []⟩
  | x :: xs, seen =>
      match key x with
      | none => pass key act xs seen
      | some k =>
          if k ∈ seen then pass key act xs seen
          else match act x k with
            | .done =>
                let rest := pass key act xs (k :: seen)
                ⟨rest.seen, k :: rest.done⟩
            | .dropped => pass key act xs (k :: seen)
            | .stopped => ⟨k :: seen, []⟩

/-- All goes well with whatever is met for the first time. -/
def clean (key : ι → Option κ) (ok : ι → κ → Bool) :
    List ι → List κ → Bool
  | [], _ => true
  | x :: xs, seen =>
      match key x with
      | none => clean key ok xs seen
      | some k =>
          if k ∈ seen then clean key ok xs seen
          else ok x k && clean key ok xs (k :: seen)

/-- The keys of a page. -/
def keys (key : ι → Option κ) (xs : List ι) : List κ := xs.filterMap key

variable {key : ι → Option κ} {act : ι → κ → Outcome} {ok : ι → κ → Bool}
  {x : ι} {xs : List ι} {k : κ} {seen before : List κ}

-- ============================================================ one item

theorem pass_of_none (hkey : key x = none) :
    pass key act (x :: xs) seen = pass key act xs seen := by
  rw [pass, hkey]

theorem pass_of_seen (hkey : key x = some k) (hk : k ∈ seen) :
    pass key act (x :: xs) seen = pass key act xs seen := by
  simp only [pass, hkey, if_pos hk]

theorem pass_of_done (hkey : key x = some k) (hk : k ∉ seen)
    (hact : act x k = .done) :
    pass key act (x :: xs) seen
      = ⟨(pass key act xs (k :: seen)).seen,
        k :: (pass key act xs (k :: seen)).done⟩ := by
  simp only [pass, hkey, if_neg hk, hact]

theorem pass_of_dropped (hkey : key x = some k) (hk : k ∉ seen)
    (hact : act x k = .dropped) :
    pass key act (x :: xs) seen = pass key act xs (k :: seen) := by
  simp only [pass, hkey, if_neg hk, hact]

theorem pass_of_stopped (hkey : key x = some k) (hk : k ∉ seen)
    (hact : act x k = .stopped) :
    pass key act (x :: xs) seen = ⟨k :: seen, []⟩ := by
  simp only [pass, hkey, if_neg hk, hact]

-- ============================================================ what is kept

/-- Marks stay. -/
theorem seen_subset (h : k ∈ seen) : k ∈ (pass key act xs seen).seen := by
  induction xs generalizing seen with
  | nil => exact h
  | cons x xs ih =>
      cases hkey : key x with
      | none =>
          rw [pass_of_none hkey]
          exact ih h
      | some k' =>
          have hmore : k ∈ k' :: seen := List.mem_cons_of_mem _ h
          by_cases hk : k' ∈ seen
          · rw [pass_of_seen hkey hk]
            exact ih h
          · cases hact : act x k' with
            | done =>
                rw [pass_of_done hkey hk hact]
                exact ih hmore
            | dropped =>
                rw [pass_of_dropped hkey hk hact]
                exact ih hmore
            | stopped =>
                rw [pass_of_stopped hkey hk hact]
                exact hmore

/-- What is done is marked, and was not before. -/
theorem done_fresh (h : k ∈ (pass key act xs seen).done) :
    k ∈ (pass key act xs seen).seen ∧ k ∉ seen := by
  induction xs generalizing seen with
  | nil => cases h
  | cons x xs ih =>
      cases hkey : key x with
      | none =>
          rw [pass_of_none hkey] at h ⊢
          exact ih h
      | some k' =>
          by_cases hk : k' ∈ seen
          · rw [pass_of_seen hkey hk] at h ⊢
            exact ih h
          · have hold : k ∉ k' :: seen → k ∉ seen := fun hnot hmem =>
              hnot (List.mem_cons_of_mem _ hmem)
            cases hact : act x k' with
            | done =>
                rw [pass_of_done hkey hk hact] at h ⊢
                rcases List.mem_cons.mp h with rfl | h
                · exact ⟨seen_subset List.mem_cons_self, hk⟩
                · exact ⟨(ih h).1, hold (ih h).2⟩
            | dropped =>
                rw [pass_of_dropped hkey hk hact] at h ⊢
                exact ⟨(ih h).1, hold (ih h).2⟩
            | stopped =>
                rw [pass_of_stopped hkey hk hact] at h
                cases h

-- ============================================================== the bound

omit [DecidableEq κ] in
/-- One more key on both sides. -/
theorem subset_cons (h : ∀ k ∈ seen, k ∈ before) (k : κ) :
    ∀ k' ∈ k :: seen, k' ∈ k :: before := by
  intro k' hk'
  rcases List.mem_cons.mp hk' with rfl | hk'
  · exact List.mem_cons_self
  · exact List.mem_cons_of_mem _ (h k' hk')

/-- In a clean pass, what was marked or read is done, now or before. -/
theorem done_of_clean (hok : ∀ x k, act x k = .done ↔ ok x k = true)
    (hclean : clean key ok xs seen = true)
    (hseen : ∀ k ∈ seen, k ∈ before) :
    ∀ k, k ∈ (pass key act xs seen).seen ∨ k ∈ keys key xs →
      k ∈ (pass key act xs seen).done ∨ k ∈ before := by
  induction xs generalizing seen before with
  | nil =>
      intro k h
      rcases h with h | h
      · exact .inr (hseen k h)
      · cases h
  | cons x xs ih =>
      cases hkey : key x with
      | none =>
          have hkeys : keys key (x :: xs) = keys key xs :=
            List.filterMap_cons_none hkey
          rw [clean, hkey] at hclean
          rw [pass_of_none hkey, hkeys]
          exact ih hclean hseen
      | some k' =>
          have hkeys : keys key (x :: xs) = k' :: keys key xs :=
            List.filterMap_cons_some hkey
          rw [hkeys]
          by_cases hk : k' ∈ seen
          · simp only [clean, hkey, if_pos hk] at hclean
            rw [pass_of_seen hkey hk]
            intro k h
            rcases h with h | h
            · exact ih hclean hseen k (.inl h)
            · rcases List.mem_cons.mp h with rfl | h
              · exact .inr (hseen _ hk)
              · exact ih hclean hseen k (.inr h)
          · simp only [clean, hkey, if_neg hk, Bool.and_eq_true] at hclean
            obtain ⟨hact, hclean⟩ := hclean
            rw [pass_of_done hkey hk ((hok x k').mpr hact)]
            have hrest := ih hclean (subset_cons hseen k')
            -- done in the rest or before counts the key done here
            have hmove : ∀ k, k ∈ (pass key act xs (k' :: seen)).done
                ∨ k ∈ k' :: before →
                k ∈ k' :: (pass key act xs (k' :: seen)).done
                  ∨ k ∈ before := by
              intro k h
              simp only [List.mem_cons] at h ⊢
              tauto
            intro k h
            rcases h with h | h
            · exact hmove k (hrest k (.inl h))
            · rcases List.mem_cons.mp h with rfl | h
              · exact .inl List.mem_cons_self
              · exact hmove k (hrest k (.inr h))

/-- In any other pass, something is marked that was not done before and is
not done now. -/
theorem undone_of_not_clean (hok : ∀ x k, act x k = .done ↔ ok x k = true)
    (hclean : clean key ok xs seen = false)
    (hbefore : ∀ k ∈ before, k ∈ seen) :
    ∃ k ∈ (pass key act xs seen).seen,
      ¬ (k ∈ (pass key act xs seen).done ∨ k ∈ before) := by
  induction xs generalizing seen before with
  | nil => cases hclean
  | cons x xs ih =>
      cases hkey : key x with
      | none =>
          rw [clean, hkey] at hclean
          rw [pass_of_none hkey]
          exact ih hclean hbefore
      | some k =>
          by_cases hk : k ∈ seen
          · simp only [clean, hkey, if_pos hk] at hclean
            rw [pass_of_seen hkey hk]
            exact ih hclean hbefore
          · have hnew : k ∉ before := fun h => hk (hbefore k h)
            simp only [clean, hkey, if_neg hk] at hclean
            cases hact : act x k with
            | done =>
                rw [(hok x k).mp hact] at hclean
                rw [pass_of_done hkey hk hact]
                obtain ⟨k', hseen, hnot⟩ :=
                  ih hclean (subset_cons hbefore k)
                refine ⟨k', hseen, fun h => hnot ?_⟩
                simp only [List.mem_cons] at h ⊢
                tauto
            | dropped =>
                rw [pass_of_dropped hkey hk hact]
                refine ⟨k, seen_subset List.mem_cons_self, fun h => ?_⟩
                rcases h with h | h
                · exact (done_fresh h).2 List.mem_cons_self
                · exact hnew h
            | stopped =>
                rw [pass_of_stopped hkey hk hact]
                refine ⟨k, List.mem_cons_self, fun h => ?_⟩
                rcases h with h | h
                · cases h
                · exact hnew h

-- ============================================================== the ledger

/-- The keys read so far, and those done. -/
structure Ledger (κ : Type _) where
  read : List κ
  done : List κ

/-- After a pass over a page. -/
def Ledger.after (l : Ledger κ) (key : ι → Option κ) (act : ι → κ → Outcome)
    (xs : List ι) (seen : List κ) : Ledger κ :=
  ⟨keys key xs ++ l.read, (pass key act xs seen).done ++ l.done⟩

/-- What was done is marked. -/
def Ledger.Marked (seen : List κ) (l : Ledger κ) : Prop :=
  ∀ k ∈ l.done, k ∈ seen

/-- What was marked or read is done. -/
def Ledger.KeptUp (seen : List κ) (l : Ledger κ) : Prop :=
  ∀ k, k ∈ seen ∨ k ∈ l.read → k ∈ l.done

theorem Ledger.Marked.after {l : Ledger κ} (h : l.Marked seen) :
    (l.after key act xs seen).Marked (pass key act xs seen).seen := by
  intro k hk
  rcases List.mem_append.mp hk with hk | hk
  · exact (done_fresh hk).1
  · exact seen_subset (h k hk)

/-- A pass keeps up exactly where it is clean. -/
theorem Ledger.KeptUp.after_iff {l : Ledger κ} (h : l.KeptUp seen)
    (hmarked : l.Marked seen)
    (hok : ∀ x k, act x k = .done ↔ ok x k = true) :
    (l.after key act xs seen).KeptUp (pass key act xs seen).seen
      ↔ clean key ok xs seen = true := by
  constructor
  · intro hafter
    by_contra hnot
    obtain ⟨k, hseen, hundone⟩ :=
      undone_of_not_clean hok (Bool.eq_false_iff.mpr hnot) hmarked
    exact hundone (List.mem_append.mp (hafter k (.inl hseen)))
  · intro hclean k hk
    have hseen : ∀ k ∈ seen, k ∈ l.done := fun k hk => h k (.inl hk)
    apply List.mem_append.mpr
    rcases hk with hk | hk
    · exact done_of_clean hok hclean hseen k (.inl hk)
    · rcases List.mem_append.mp hk with hk | hk
      · exact done_of_clean hok hclean hseen k (.inr hk)
      · exact .inr (h k (.inr hk))

end Sweep
