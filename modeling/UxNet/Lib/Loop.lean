import Mathlib.Tactic

/-!
# Bounded loops

A `while` loop is given by its body, which either leaves the loop (`.done`) or goes round again
(`.yield`). `loop` runs a body with a bound on the number of rounds, `Runs` is the meaning of the
loop without a bound, and `loop_runs` says that the two agree once a measure fits under the bound.
Invariants are carried over whole runs by `Runs.inv`. A `for` loop over the cells of an array is a
fold; `foldl_cells` says what it leaves in a cell when each round changes its own cell only, and
`foldl_seen` what such a loop makes of the cells it sees. For loops that run at the same time,
`steps_le` bounds the steps that all of them can take.
-/

namespace UxNet.Loop

variable {σ : Type*} {body : σ → ForInStep σ}

/-- Run a loop body for at most `n` rounds. -/
def loop (body : σ → ForInStep σ) : ℕ → σ → σ
  | 0, s => s
  | n + 1, s =>
    match body s with
    | .done r => r
    | .yield t => loop body n t

/-- The unbounded run of a loop body from one state to the state it leaves the loop in. -/
inductive Runs (body : σ → ForInStep σ) : σ → σ → Prop where
  | done {s r} :
    body s = .done r →
    Runs body s r
  | yield {s t r} :
    body s = .yield t →
    Runs body t r →
    Runs body s r

/-- With a measure that each round decreases, a large enough bound gives the unbounded run. -/
lemma loop_runs (μ : σ → ℕ) (dec : ∀ s t, body s = .yield t → μ t < μ s) {n s}
    (fuel : μ s < n) : Runs body s (loop body n s) := by
  induction n generalizing s with
  | zero => omega
  | succ n ih =>
    rw [loop]
    cases e : body s with
    | done r => exact .done e
    | yield t =>
      have lt := dec s t e
      exact .yield e (ih (by omega))

/-- A property kept by every round holds of the state the loop is left in. -/
lemma Runs.inv {I : σ → Prop} (hdone : ∀ s r, I s → body s = .done r → I r)
    (hyield : ∀ s t, I s → body s = .yield t → I t) {s r} (run : Runs body s r) (h : I s) :
    I r := by
  induction run with
  | done e => exact hdone _ _ h e
  | yield e _ ih => exact ih (hyield _ _ h e)

/-- The state a run ends in was produced by a round that left the loop. -/
lemma Runs.last {s r} (run : Runs body s r) : ∃ t, body t = .done r := by
  induction run with
  | done e => exact ⟨_, e⟩
  | yield _ _ ih => exact ih

/-- A run ends in one state only. -/
lemma Runs.unique {s r r'} (run : Runs body s r) (run' : Runs body s r') : r = r' := by
  induction run with
  | done e =>
    cases run' with
    | done e' => exact ForInStep.done.inj (e.symm.trans e')
    | yield e' _ => cases e.symm.trans e'
  | yield e _ ih =>
    cases run' with
    | done e' => cases e.symm.trans e'
    | yield e' rest =>
      cases e.symm.trans e'
      exact ih rest

/-- Two rounds that end alike, in related states. -/
inductive Both (R : σ → σ → Prop) : ForInStep σ → ForInStep σ → Prop where
  | done {s t} : R s t → Both R (.done s) (.done t)
  | yield {s t} : R s t → Both R (.yield s) (.yield t)

/-- Two runs in lockstep: a relation kept by every round is kept by the loop. -/
lemma loop_both {R : σ → σ → Prop} (round : ∀ s t, R s t → Both R (body s) (body t)) {s t : σ}
    (h : R s t) (n : ℕ) : R (loop body n s) (loop body n t) := by
  induction n generalizing s t with
  | zero => exact h
  | succ n ih =>
    have both := round s t h
    rw [loop, loop]
    generalize body s = x at both
    generalize body t = y at both
    cases both with
    | done h' => exact h'
    | yield h' => exact ih h'

/-- A loop seen through a function that turns its rounds into those of another loop. -/
lemma loop_map {τ : Type*} {body' : τ → ForInStep τ} (f : σ → τ)
    (hdone : ∀ s r, body s = .done r → body' (f s) = .done (f r))
    (hyield : ∀ s t, body s = .yield t → body' (f s) = .yield (f t)) (n : ℕ) (s : σ) :
    f (loop body n s) = loop body' n (f s) := by
  induction n generalizing s with
  | zero => rfl
  | succ n ih =>
    rw [loop, loop]
    cases e : body s with
    | done r => rw [hdone s r e]
    | yield t =>
      rw [hyield s t e]
      exact ih t

/-- Steps that each decrease a measure are not more than it was. -/
lemma steps_le {R : σ → σ → Prop} {I : σ → Prop} (μ : σ → ℕ) (keep : ∀ {s t}, I s → R s t → I t)
    (dec : ∀ {s t}, I s → R s t → μ t < μ s) {r : ℕ → σ} (start : I (r 0)) {k : ℕ}
    (run : ∀ i < k, R (r i) (r (i + 1))) : k ≤ μ (r 0) := by
  suffices I (r k) ∧ k + μ (r k) ≤ μ (r 0) by omega
  induction k with
  | zero => exact ⟨start, by omega⟩
  | succ k ih =>
    obtain ⟨inv, le⟩ := ih fun i lt => run i (by omega)
    have last := run k (by omega)
    have := dec inv last
    exact ⟨keep inv last, by omega⟩

/-- A loop whose rounds change their own cell only changes each cell it visits once. -/
lemma foldl_cells {ι β : Type*} [DecidableEq ι] (get : σ → ι → β) {round : σ → ι → σ} {g : β → β}
    (own : ∀ s k k', get (round s k) k' = if k' = k then g (get s k) else get s k')
    {ks : List ι} (nodup : ks.Nodup) (s : σ) (k : ι) :
    get (ks.foldl round s) k = if k ∈ ks then g (get s k) else get s k := by
  induction ks generalizing s with
  | nil => simp
  | cons k' ks ih =>
    obtain ⟨notin, nodup'⟩ := List.nodup_cons.mp nodup
    rw [List.foldl_cons, ih nodup', own]
    by_cases hk : k = k'
    · subst hk
      simp [notin]
    · simp [hk]

/-- A loop whose rounds change their own cell only sees every cell as it was before the loop. -/
lemma foldl_seen {ι β γ : Type*} [DecidableEq ι] (get : σ → ι → β) {round : σ → ι → σ} {g : β → β}
    (own : ∀ s k k', get (round s k) k' = if k' = k then g (get s k) else get s k') (acc : σ → γ)
    (seen : γ → β → γ) (step : ∀ s k, acc (round s k) = seen (acc s) (get s k)) {ks : List ι}
    (nodup : ks.Nodup) (s : σ) : acc (ks.foldl round s) = (ks.map (get s)).foldl seen (acc s) := by
  induction ks generalizing s with
  | nil => rfl
  | cons k ks ih =>
    obtain ⟨notin, nodup'⟩ := List.nodup_cons.mp nodup
    have same : ks.map (get (round s k)) = ks.map (get s) := by
      apply List.map_congr_left
      intro k' mem
      have ne : k' ≠ k := fun e => notin (e ▸ mem)
      rw [own, if_neg ne]
    rw [List.foldl_cons, ih nodup', same, step, List.map_cons, List.foldl_cons]

end UxNet.Loop
