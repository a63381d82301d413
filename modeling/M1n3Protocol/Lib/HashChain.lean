/-
A value hashed, wrapped and hashed again: what two such chains with the
same wraps have to do with each other.

Two chains that start apart end in one digest only where, at some step,
the two values they hash are different and have one digest. The step is
among `preimages`, so the collision is one that the two chains show, not
one that merely exists.

Two chains with wraps of their own end in one digest only where they are
the same chain or show such a collision (`same_or_collide`), as long as a
wrapped digest tells its wrap and its digest, and is no chain's start.
-/
import Mathlib.Logic.Function.Basic
import Mathlib.Data.List.Induction

namespace HashChain

variable {α β : Type _} (h : α → β)

/-- What is hashed last. -/
def last (wraps : List (β → α)) (x : α) : α :=
  wraps.foldl (fun x wrap => wrap (h x)) x

theorem last_concat (wraps : List (β → α)) (wrap : β → α) (x : α) :
    last h (wraps ++ [wrap]) x = wrap (h (last h wraps x)) := by
  rw [last, List.foldl_append]
  rfl

/-- The digest at the end, as a loop over digests. -/
theorem digest_last (wraps : List (β → α)) (x : α) :
    h (last h wraps x) = wraps.foldl (fun d wrap => h (wrap d)) (h x) := by
  induction wraps generalizing x with
  | nil => rfl
  | cons wrap wraps ih => exact ih (wrap (h x))

/-- Everything that is hashed, in order. -/
def preimages : List (β → α) → α → List α
  | [], x => [x]
  | wrap :: wraps, x => x :: preimages wraps (wrap (h x))

/-- At some step the two chains hash different values to one digest. -/
def Collide (wraps : List (β → α)) (x y : α) : Prop :=
  ∃ p ∈ (preimages h wraps x).zip (preimages h wraps y),
    p.1 ≠ p.2 ∧ h p.1 = h p.2

/-- Chains that start apart end together exactly where they collide. -/
theorem digest_eq_iff {wraps : List (β → α)}
    (hwraps : ∀ wrap ∈ wraps, Function.Injective wrap) {x y : α}
    (hxy : x ≠ y) :
    h (last h wraps x) = h (last h wraps y) ↔ Collide h wraps x y := by
  induction wraps generalizing x y with
  | nil =>
      constructor
      · intro heq
        exact ⟨(x, y), List.mem_singleton_self _, hxy, heq⟩
      · rintro ⟨p, hp, -, heq⟩
        rw [List.mem_singleton.mp hp] at heq
        exact heq
  | cons wrap wraps ih =>
      have hrest : ∀ w ∈ wraps, Function.Injective w := fun w hw =>
        hwraps w (List.mem_cons_of_mem wrap hw)
      have hlast : ∀ z, last h (wrap :: wraps) z
          = last h wraps (wrap (h z)) := fun _ => rfl
      rw [hlast, hlast]
      by_cases hdigest : h x = h y
      · refine iff_of_true (by rw [hdigest]) ?_
        exact ⟨(x, y), List.mem_cons_self, hxy, hdigest⟩
      · have hapart : wrap (h x) ≠ wrap (h y) := fun heq =>
          hdigest (hwraps wrap List.mem_cons_self heq)
        rw [ih hrest hapart]
        constructor
        · rintro ⟨p, hp, hcollide⟩
          exact ⟨p, List.mem_cons_of_mem _ hp, hcollide⟩
        · rintro ⟨p, hp, hne, heq⟩
          rcases List.mem_cons.mp hp with rfl | hp
          · exact absurd heq hdigest
          · exact ⟨p, hp, hne, heq⟩

-- ========================================================== two wrappings

theorem preimages_concat (wraps : List (β → α)) (wrap : β → α) (x : α) :
    preimages h (wraps ++ [wrap]) x
      = preimages h wraps x ++ [wrap (h (last h wraps x))] := by
  induction wraps generalizing x with
  | nil => rfl
  | cons w wraps ih =>
      rw [List.cons_append, preimages, preimages, ih, List.cons_append]
      rfl

theorem last_mem_preimages (wraps : List (β → α)) (x : α) :
    last h wraps x ∈ preimages h wraps x := by
  induction wraps generalizing x with
  | nil => exact List.mem_singleton_self x
  | cons w wraps ih => exact List.mem_cons_of_mem x (ih (w (h x)))

/-- Something one chain hashes and something else the other hashes have
one digest. -/
def Clash (wraps wraps' : List (β → α)) (x y : α) : Prop :=
  ∃ p ∈ preimages h wraps x, ∃ q ∈ preimages h wraps' y,
    p ≠ q ∧ h p = h q

/-- From the end backwards: as long as the wraps match the digests below
them do, and where one chain starts the other starts too. -/
theorem same_or_collide {γ : Type _} (wrap : γ → β → α) {cs cs' : List γ}
    {x y : α}
    (hwrap : ∀ c ∈ cs, ∀ c' ∈ cs', ∀ a b,
      wrap c (h a) = wrap c' (h b) → c = c' ∧ h a = h b)
    (hx : ∀ c ∈ cs', ∀ a, wrap c (h a) ≠ x)
    (hy : ∀ c ∈ cs, ∀ a, wrap c (h a) ≠ y)
    (hdigest : h (last h (cs.map wrap) x) = h (last h (cs'.map wrap) y)) :
    (cs = cs' ∧ x = y) ∨ Clash h (cs.map wrap) (cs'.map wrap) x y := by
  by_cases hlast : last h (cs.map wrap) x = last h (cs'.map wrap) y
  case neg =>
    exact .inr ⟨_, last_mem_preimages h _ x, _, last_mem_preimages h _ y,
      hlast, hdigest⟩
  induction cs using List.reverseRecOn generalizing cs' with
  | nil =>
      rcases List.eq_nil_or_concat cs' with rfl | ⟨cs', c', rfl⟩
      · exact .inl ⟨rfl, hlast⟩
      · rw [List.concat_eq_append, List.map_append, List.map_singleton,
          last_concat] at hlast
        exact absurd hlast.symm (hx c' (by simp) _)
  | append_singleton cs c ih =>
      rcases List.eq_nil_or_concat cs' with rfl | ⟨cs', c', rfl⟩
      · rw [List.map_append, List.map_singleton, last_concat] at hlast
        exact absurd hlast (hy c (by simp) _)
      · rw [List.concat_eq_append] at hwrap hx hdigest hlast ⊢
        simp only [List.map_append, List.map_singleton, last_concat]
          at hlast
        obtain ⟨rfl, hbelow⟩ := hwrap c (by simp) c' (by simp) _ _ hlast
        simp only [List.map_append, List.map_singleton, Clash,
          preimages_concat]
        by_cases hsame : last h (cs.map wrap) x = last h (cs'.map wrap) y
        · have hrest := ih
            (fun d hd d' hd' => hwrap d (List.mem_append_left _ hd) d'
              (List.mem_append_left _ hd'))
            (fun d hd => hx d (List.mem_append_left _ hd))
            (fun d hd => hy d (List.mem_append_left _ hd)) hbelow hsame
          rcases hrest with ⟨rfl, hxy⟩ | ⟨p, hp, q, hq, hne, heq⟩
          · exact .inl ⟨rfl, hxy⟩
          · exact .inr ⟨p, List.mem_append_left _ hp, q,
              List.mem_append_left _ hq, hne, heq⟩
        · exact .inr ⟨_, List.mem_append_left _ (last_mem_preimages h _ x),
            _, List.mem_append_left _ (last_mem_preimages h _ y), hsame,
            hbelow⟩

end HashChain
