import Mathlib.Tactic
import Mathlib.Order.Filter.AtTopBot.Basic

/-!
# Infinite runs

A run that never ends is a sequence of states with a step from each to the next. What happens again and
again is `∃ᶠ i in atTop`, what holds from some point on `∀ᶠ i in atTop`.

A run goes through every phase that leaves it no choice (`IsRun.follows`), a number that never falls and
can always rise gets as high as it is asked to (`climbs`), and if one of finitely many things happens
again and again, one of them does (`often_of_finite`). A run may also be put together from a finite part
and an infinite one (`splice`).
-/

namespace UxNet.Endless

open Filter Relation

variable {α β : Type*} {R D : α → α → Prop} {w : ℕ → α} {i j : ℕ}

/-- A sequence of states with a step from each to the next. -/
def IsRun (R : α → α → Prop) (w : ℕ → α) : Prop := ∀ i, R (w i) (w (i + 1))

/-- The states that come later are reached. -/
lemma IsRun.reaches (run : IsRun R w) (le : i ≤ j) : ReflTransGen R (w i) (w j) := by
  induction j, le using Nat.le_induction with
  | base => exact .refl
  | succ j _ ih => exact ih.tail (run j)

/-- Where the steps `D` are the only ones, the run takes them. -/
lemma IsRun.follows (run : IsRun R w) (only : ∀ {a b c}, D a b → R a c → c = b) {b : α}
    (steps : ReflTransGen D (w i) b) : ∃ j ≥ i, w j = b := by
  induction steps with
  | refl => exact ⟨i, le_rfl, rfl⟩
  | @tail c d _ st ih =>
    obtain ⟨j, le, rfl⟩ := ih
    exact ⟨j + 1, by omega, only st (run j)⟩

/-- A number that never falls and can always rise gets as high as it is asked to. -/
lemma climbs {f : ℕ → ℕ} {n : ℕ} (i : ℕ) (more : ∀ j ≥ i, f j < n → ∃ k ≥ j, f j < f k) :
    ∃ j ≥ i, n ≤ f j := by
  induction gap : n - f i using Nat.strong_induction_on generalizing i with
  | _ d ih =>
    rcases Nat.lt_or_ge (f i) n with less | done
    · obtain ⟨k, le, up⟩ := more i le_rfl less
      obtain ⟨j, le', done⟩ := ih (n - f k) (by omega) k (fun j ge => more j (by omega)) rfl
      exact ⟨j, by omega, done⟩
    · exact ⟨i, le_rfl, done⟩

/-- If one of finitely many things happens again and again, one of them does. -/
lemma often_of_finite [Finite β] {p : ℕ → β → Prop} (often : ∃ᶠ i in atTop, ∃ x, p i x) :
    ∃ x, ∃ᶠ i in atTop, p i x := by
  by_contra never
  push Not at never
  refine often ?_
  have all := eventually_all.mpr never
  filter_upwards [all] with i none
  rintro ⟨x, here⟩
  exact none x here

/-- What was added to a log that grows by one entry at a time was added at some point. -/
lemma added_at {f : ℕ → List β} (grow : ∀ k, f (k + 1) = f k ∨ ∃ c, f (k + 1) = f k ++ [c]) (le : i ≤ j)
    {cs : List β} (eq : f j = f i ++ cs) {c : β} (mem : c ∈ cs) :
    ∃ k, i ≤ k ∧ k < j ∧ f (k + 1) = f k ++ [c] := by
  have log : ∀ k ≥ i, ∃ cs, f k = f i ++ cs := by
    intro k ge
    induction k, ge using Nat.le_induction with
    | base => exact ⟨[], (List.append_nil _).symm⟩
    | succ k _ ih =>
      obtain ⟨cs, here⟩ := ih
      rcases grow k with same | ⟨c, more⟩
      · exact ⟨cs, same.trans here⟩
      · exact ⟨cs ++ [c], by rw [more, here, List.append_assoc]⟩
  induction j, le using Nat.le_induction generalizing cs with
  | base =>
    rw [List.self_eq_append_right.mp eq] at mem
    cases mem
  | succ j le ih =>
    obtain ⟨cs', before⟩ := log j le
    rcases grow j with same | ⟨c', more⟩
    · obtain ⟨k, ge, lt, here⟩ := ih (same.symm.trans eq) mem
      exact ⟨k, ge, by omega, here⟩
    · have parts : cs = cs' ++ [c'] := by
        rw [eq, before, List.append_assoc] at more
        exact List.append_cancel_left more
      rw [parts] at mem
      rcases List.mem_append.mp mem with old | new
      · obtain ⟨k, ge, lt, here⟩ := ih before old
        exact ⟨k, ge, by omega, here⟩
      · rw [← List.mem_singleton.mp new] at more
        exact ⟨j, le, by omega, more⟩

/-- A finite run and an infinite one after it. -/
lemma splice {a b : α} (finite : ReflTransGen R a b) {g : ℕ → α} (start : g 0 = b) (run : IsRun R g) :
    ∃ w k, w 0 = a ∧ IsRun R w ∧ ∀ i, w (k + i) = g i := by
  induction finite using ReflTransGen.head_induction_on with
  | refl => exact ⟨g, 0, start, run, fun i => by rw [Nat.zero_add]⟩
  | @head a c st _ ih =>
    obtain ⟨w, k, first, run', rest⟩ := ih
    refine ⟨fun i => Nat.casesOn i a w, k + 1, rfl, ?_, ?_⟩
    · intro i
      cases i with
      | zero =>
        show R a (w 0)
        rw [first]
        exact st
      | succ i => exact run' i
    · intro i
      rw [Nat.add_right_comm]
      exact rest i

/-- What happens again and again does so in every tail. -/
lemma often_shift {p : ℕ → Prop} (k : ℕ) (often : ∃ᶠ i in atTop, p (k + i)) : ∃ᶠ i in atTop, p i := by
  rw [frequently_atTop] at often ⊢
  intro n
  obtain ⟨i, ge, here⟩ := often n
  exact ⟨k + i, by omega, here⟩

end UxNet.Endless
