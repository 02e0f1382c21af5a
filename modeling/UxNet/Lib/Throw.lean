import Mathlib.Tactic

/-!
# Programs that throw

A program over a state that returns or throws; what is thrown leaves the state as it is then. `Ensures`
is the pre- and postcondition of such a program, with one postcondition for each way to end, and the
rules follow the ways to build a program. `guard` is a block whose handler cleans up and throws again.
`Returns` says that the program does not throw; its rules are for programs of which that does not depend on
the state.
-/

namespace UxNet

/-- A program over a state of type `σ` that may throw an `ε`. -/
abbrev Throw (ε σ α : Type) := ExceptT ε (StateM σ) α

namespace Throw

variable {ε σ α β : Type}

/-- How the program ends from a state, and the state it leaves. -/
def exec (x : Throw ε σ α) (s : σ) : Except ε α × σ := x.run.run s

/-- From every state with `P` the program returns with `Q` or throws with `R`. -/
def Ensures (P : σ → Prop) (x : Throw ε σ α) (Q : α → σ → Prop) (R : σ → Prop) : Prop :=
  ∀ s, P s → match x.exec s with
    | (.ok a, s') => Q a s'
    | (.error _, s') => R s'

/-- From this state the program returns. -/
def Returns (x : Throw ε σ α) (s : σ) : Prop := ∃ a s', x.exec s = (.ok a, s')

/-- `try { x } catch (...) { cleanup; throw; }` -/
def guard (x : Throw ε σ α) (cleanup : σ → σ) : Throw ε σ α :=
  tryCatch x fun e => do
    modify cleanup
    throw e

/-- A sequence ends as its second part does, or throws as its first part does. -/
lemma exec_bind (x : Throw ε σ α) (f : α → Throw ε σ β) (s : σ) :
    (x >>= f).exec s = match x.exec s with
      | (.ok a, s') => (f a).exec s'
      | (.error e, s') => (.error e, s') := by
  have unfolded : (x >>= f).exec s = match x.exec s with
      | (r, s') => (ExceptT.bindCont (fun a => (f a).run) r : StateM σ _).run s' := rfl
  rw [unfolded]
  rcases x.exec s with ⟨r, s'⟩
  cases r with
  | ok a => rfl
  | error e => rfl

/-- A guarded block ends as the block does, and cleans up if that threw. -/
lemma exec_guard (x : Throw ε σ α) (cleanup : σ → σ) (s : σ) :
    (guard x cleanup).exec s = match x.exec s with
      | (.ok a, s') => (.ok a, s')
      | (.error e, s') => (.error e, cleanup s') := by
  have unfolded : (guard x cleanup).exec s = match x.exec s with
      | (r, s') => (match r with
        | .ok a => (pure (.ok a) : StateM σ (Except ε α))
        | .error e => ((modify cleanup >>= fun _ => throw e : Throw ε σ α)).run).run s' := rfl
  rw [unfolded]
  rcases x.exec s with ⟨r, s'⟩
  cases r with
  | ok a => rfl
  | error e => rfl

variable {P P' : σ → Prop} {Q Q' : α → σ → Prop} {R : σ → Prop}

namespace Ensures

/-- `return`. -/
lemma ret {a : α} (h : ∀ s, P s → Q a s) : Ensures P (pure a : Throw ε σ α) Q R := fun s p => h s p

/-- `throw`. -/
lemma raise {e : ε} (h : ∀ s, P s → R s) : Ensures P (throw e : Throw ε σ α) Q R := fun s p => h s p

/-- A change of the state. -/
lemma update {f : σ → σ} {Q : PUnit → σ → Prop} (h : ∀ s, P s → Q ⟨⟩ (f s)) :
    Ensures P (modify f : Throw ε σ PUnit) Q R := fun s p => h s p

/-- A precondition that something exists. -/
lemma any {ι : Type} {P : ι → σ → Prop} {x : Throw ε σ α} (h : ∀ i, Ensures (P i) x Q R) :
    Ensures (fun s => ∃ i, P i s) x Q R := fun s ⟨i, p⟩ => h i s p

/-- A part of the precondition that is not about the state. -/
lemma fact {p : Prop} {x : Throw ε σ α} (h : p → Ensures P x Q R) :
    Ensures (fun s => p ∧ P s) x Q R := fun s ⟨here, there⟩ => h here s there

/-- One program and then another. -/
lemma seq {x : Throw ε σ α} {f : α → Throw ε σ β} {Q' : β → σ → Prop} (first : Ensures P x Q R)
    (rest : ∀ a, Ensures (Q a) (f a) Q' R) : Ensures P (x >>= f) Q' R := by
  intro s p
  have ends := first s p
  rw [exec_bind]
  generalize x.exec s = r at ends ⊢
  rcases r with ⟨e | a, s'⟩
  · exact ends
  · exact rest a s' ends

/-- A stronger precondition, and weaker postconditions. -/
lemma conseq {x : Throw ε σ α} {R' : σ → Prop} (h : Ensures P x Q R) (pre : ∀ s, P' s → P s)
    (post : ∀ a s, Q a s → Q' a s) (thrown : ∀ s, R s → R' s) : Ensures P' x Q' R' := by
  intro s p
  have ends := h s (pre s p)
  generalize x.exec s = r at ends ⊢
  rcases r with ⟨e | a, s'⟩
  · exact thrown s' ends
  · exact post a s' ends

/-- A handler that cleans up and throws again. -/
lemma guard {x : Throw ε σ α} {cleanup : σ → σ} {R' : σ → Prop} (h : Ensures P x Q R)
    (cleans : ∀ s, R s → R' (cleanup s)) : Ensures P (Throw.guard x cleanup) Q R' := by
  intro s p
  have ends := h s p
  rw [exec_guard]
  generalize x.exec s = r at ends ⊢
  rcases r with ⟨e | a, s'⟩
  · exact cleans s' ends
  · exact ends

end Ensures

namespace Returns

variable {s : σ}

/-- `return` returns. -/
lemma ret (a : α) : (pure a : Throw ε σ α).Returns s := ⟨a, s, rfl⟩

/-- `throw` does not. -/
lemma not_raise (e : ε) : ¬ (throw e : Throw ε σ α).Returns s := by
  rintro ⟨a, s', ends⟩
  cases ends

/-- A change of the state returns. -/
lemma update (f : σ → σ) : (modify f : Throw ε σ PUnit).Returns s := ⟨⟨⟩, f s, rfl⟩

/-- A sequence returns if both parts do. -/
lemma seq_iff {x : Throw ε σ α} {f : α → Throw ε σ β} {p q : Prop} (first : ∀ s, x.Returns s ↔ p)
    (rest : ∀ a s, (f a).Returns s ↔ q) (s : σ) : (x >>= f).Returns s ↔ p ∧ q := by
  have here := first s
  unfold Returns at here ⊢
  rw [exec_bind]
  generalize x.exec s = r at here ⊢
  rcases r with ⟨e | a, s'⟩
  · have not : ¬ p := fun yes => by
      obtain ⟨_, _, ends⟩ := here.mpr yes
      cases ends
    constructor
    · rintro ⟨_, _, ends⟩
      cases ends
    · exact fun both => absurd both.1 not
  · have yes : p := here.mp ⟨a, s', rfl⟩
    rw [and_iff_right yes]
    exact rest a s'

/-- A guarded block returns if the block does. -/
lemma guard_iff {x : Throw ε σ α} {cleanup : σ → σ} : (Throw.guard x cleanup).Returns s ↔ x.Returns s := by
  unfold Returns
  rw [exec_guard]
  rcases x.exec s with ⟨e | a, s'⟩
  · constructor
    · rintro ⟨_, _, ends⟩
      cases ends
    · rintro ⟨_, _, ends⟩
      cases ends
  · exact Iff.rfl

end Returns

/-- What is known of a program that returns in a certain case is known together with that case. -/
lemma Ensures.of_returns {x : Throw ε σ α} {p : Prop} (h : Ensures P x Q R) (iff : ∀ s, x.Returns s ↔ p) :
    Ensures P x (fun a s => p ∧ Q a s) (fun s => ¬ p ∧ R s) := by
  intro s before
  have ends := h s before
  have here := iff s
  unfold Returns at here
  generalize x.exec s = r at ends here ⊢
  rcases r with ⟨e | a, s'⟩
  · refine ⟨fun yes => ?_, ends⟩
    obtain ⟨_, _, other⟩ := here.mpr yes
    cases other
  · exact ⟨here.mp ⟨a, s', rfl⟩, ends⟩

end Throw

end UxNet
