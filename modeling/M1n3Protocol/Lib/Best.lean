/-
The first among the best of a list.

# What a scan keeps

A scan that replaces what it holds by a strictly better element ends with
`List.argmax` or `List.argmin`. `FirstBest` says where in the list that
is: better than all that come before it, with none after it better still.
-/
import Mathlib.Data.List.MinMax

variable {α β γ : Type _}

def FirstBest (better : α → α → Prop) (l : List α) (a : α) : Prop :=
  ∃ before after, l = before ++ a :: after ∧ (∀ b ∈ before, better a b)
    ∧ ∀ b ∈ after, ¬ better b a

namespace FirstBest

theorem mem {better : α → α → Prop} {l : List α} {a : α}
    (h : FirstBest better l a) : a ∈ l := by
  obtain ⟨before, after, rfl, -, -⟩ := h
  exact List.mem_append_right _ (List.mem_cons_self ..)

variable [LinearOrder β] {f : α → β} {l : List α} {a : α}

theorem argmax_iff :
    l.argmax f = some a ↔ FirstBest (fun a b => f b < f a) l a := by
  constructor
  · intro h
    induction l generalizing a with
    | nil => cases h
    | cons x l ih =>
        rw [List.argmax_cons] at h
        cases hmax : l.argmax f with
        | none =>
            rw [hmax] at h
            obtain rfl := Option.some.inj h
            rw [List.argmax_eq_none.mp hmax]
            exact ⟨[], [], rfl, by simp, by simp⟩
        | some c =>
            rw [hmax] at h
            dsimp only at h
            split at h
            case isTrue hlt =>
                obtain rfl := Option.some.inj h
                obtain ⟨before, after, rfl, hbefore, hafter⟩ := ih hmax
                refine ⟨x :: before, after, rfl, ?_, hafter⟩
                rintro b (_ | ⟨_, hb⟩)
                · exact hlt
                · exact hbefore b hb
            case isFalse hle =>
                obtain rfl := Option.some.inj h
                refine ⟨[], l, rfl, by simp, fun b hb hlt => hle ?_⟩
                exact lt_of_lt_of_le hlt (List.le_of_mem_argmax hb hmax)
  · rintro ⟨before, after, rfl, hbefore, hafter⟩
    induction before with
    | nil =>
        rw [List.nil_append, List.argmax_cons]
        cases hmax : after.argmax f with
        | none => rfl
        | some c => exact if_neg (hafter c (List.argmax_mem hmax))
    | cons x before ih =>
        rw [List.cons_append, List.argmax_cons,
          ih fun b hb => hbefore b (List.mem_cons_of_mem _ hb)]
        exact if_pos (hbefore x (List.mem_cons_self ..))

theorem argmin_iff :
    l.argmin f = some a ↔ FirstBest (fun a b => f a < f b) l a :=
  argmax_iff (f := OrderDual.toDual ∘ f)

theorem argmax_map {f : γ → β} (g : α → γ) (l : List α) :
    (l.map g).argmax f = (l.argmax (f ∘ g)).map g := by
  induction l with
  | nil => rfl
  | cons x l ih =>
      rw [List.map_cons, List.argmax_cons, List.argmax_cons, ih]
      cases l.argmax (f ∘ g) with
      | none => rfl
      | some c =>
          show (if f (g x) < f (g c) then some (g c) else some (g x))
            = Option.map g (if f (g x) < f (g c) then some c else some x)
          split <;> rfl

theorem argmin_map {f : γ → β} (g : α → γ) (l : List α) :
    (l.map g).argmin f = (l.argmin (f ∘ g)).map g :=
  argmax_map (f := OrderDual.toDual ∘ f) g l

end FirstBest

/-- What passes a test, mapped. -/
theorem List.filterMap_eq_map_filter {f : α → Option γ} {p : α → Bool}
    {g : α → γ} {l : List α}
    (h : ∀ a ∈ l, f a = if p a then some (g a) else none) :
    l.filterMap f = (l.filter p).map g := by
  rw [List.filterMap_congr h]
  induction l with
  | nil => rfl
  | cons a l ih =>
      have hrest := ih fun b hb => h b (List.mem_cons_of_mem _ hb)
      by_cases ha : p a
      · rw [List.filter_cons_of_pos ha, List.map_cons, ← hrest]
        exact List.filterMap_cons_some (if_pos ha)
      · rw [List.filter_cons_of_neg ha, ← hrest]
        exact List.filterMap_cons_none (if_neg ha)
