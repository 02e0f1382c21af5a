import Mathlib.Tactic

/-!
# Byte access trees

A computation that reads bytes of a memory, as the tree of its reads: `read i k` asks for the byte at
index `i` and goes on with `k`. `run` gives the result over a memory, `reads` the indices asked for,
in order. The point of the tree is `run_congr`: a computation cannot tell apart two memories that
agree on what it reads.
-/

namespace UxNet

/-- A computation reading bytes by index. -/
inductive Access (α : Type) : Type where
  | ret (a : α)
  | read (i : ℕ) (k : BitVec 8 → Access α)

namespace Access

variable {α β : Type}

/-- Sequencing of two computations. -/
def bind : Access α → (α → Access β) → Access β
  | .ret a, f => f a
  | .read i k, f => .read i fun b => (k b).bind f

instance : Monad Access where
  pure := .ret
  bind := .bind

/-- Read one byte. -/
def byte (i : ℕ) : Access (BitVec 8) := .read i .ret

/-- Read `n` consecutive bytes from index `i` on. -/
def bytes : ℕ → ℕ → Access (List (BitVec 8))
  | _, 0 => pure []
  | i, n + 1 => do
    let b ← byte i
    let bs ← bytes (i + 1) n
    pure (b :: bs)

/-- The result over a memory. -/
def run (m : ℕ → BitVec 8) : Access α → α
  | .ret a => a
  | .read i k => run m (k (m i))

/-- The indices read over a memory, in order. -/
def reads (m : ℕ → BitVec 8) : Access α → List ℕ
  | .ret _ => []
  | .read i k => i :: reads m (k (m i))

variable {m : ℕ → BitVec 8}

/-- A value is its own result. -/
@[simp] lemma run_pure (a : α) : run m (pure a) = a := rfl

/-- A value reads nothing. -/
@[simp] lemma reads_pure (a : α) : reads m (pure a) = [] := rfl

/-- Reading a byte gives the byte. -/
@[simp] lemma run_byte (i : ℕ) : run m (byte i) = m i := rfl

/-- Reading a byte reads its index. -/
@[simp] lemma reads_byte (i : ℕ) : reads m (byte i) = [i] := rfl

/-- The result of a sequence goes through the result of its first part. -/
@[simp] lemma run_bind (t : Access α) (f : α → Access β) :
    run m (t >>= f) = run m (f (run m t)) := by
  induction t with
  | ret a => rfl
  | read i k ih => exact ih (m i)

/-- A sequence reads what its parts read, in order. -/
@[simp] lemma reads_bind (t : Access α) (f : α → Access β) :
    reads m (t >>= f) = reads m t ++ reads m (f (run m t)) := by
  induction t with
  | ret a => rfl
  | read i k ih => exact congrArg (i :: ·) (ih (m i))

/-- The result of a conditional. -/
@[simp] lemma run_ite (c : Prop) [Decidable c] (t e : Access α) :
    run m (if c then t else e) = if c then run m t else run m e := by
  split
  · rfl
  · rfl

/-- The reads of a conditional. -/
@[simp] lemma reads_ite (c : Prop) [Decidable c] (t e : Access α) :
    reads m (if c then t else e) = if c then reads m t else reads m e := by
  split
  · rfl
  · rfl

/-- The bytes of a block, by index. -/
lemma run_bytes (i n : ℕ) : run m (bytes i n) = (List.range n).map fun k => m (i + k) := by
  induction n generalizing i with
  | zero => rfl
  | succ n ih =>
    simp only [bytes, run_bind, run_byte, run_pure, ih, List.range_succ_eq_map, List.map_cons,
      List.map_map]
    congr 1
    apply List.map_congr_left
    intro k _
    simp only [Function.comp]
    congr 1
    omega

/-- A block is read in order. -/
lemma reads_bytes (i n : ℕ) : reads m (bytes i n) = List.range' i n := by
  induction n generalizing i with
  | zero => rfl
  | succ n ih => simp [bytes, ih, List.range'_succ]

/-- A loop over a list runs round by round. -/
lemma run_foldlM {σ : Type} (f : σ → α → Access σ) (l : List α) (s : σ) :
    run m (l.foldlM f s) = l.foldl (fun s a => run m (f s a)) s := by
  induction l generalizing s with
  | nil => rfl
  | cons a l ih =>
    rw [List.foldlM_cons, run_bind, ih]
    rfl

/-- What a loop reads is read in one of its rounds, from the state the rounds before it leave. -/
lemma mem_reads_foldlM {σ : Type} {f : σ → α → Access σ} {l : List α} {s : σ} {i : ℕ}
    (mem : i ∈ reads m (l.foldlM f s)) :
    ∃ done a todo, l = done ++ a :: todo ∧
      i ∈ reads m (f (done.foldl (fun s a => run m (f s a)) s) a) := by
  induction l generalizing s with
  | nil => exact absurd mem List.not_mem_nil
  | cons a l ih =>
    rw [List.foldlM_cons, reads_bind] at mem
    rcases List.mem_append.mp mem with here | later
    · exact ⟨[], a, l, rfl, here⟩
    · obtain ⟨done, b, todo, split, there⟩ := ih later
      exact ⟨a :: done, b, todo, by rw [split]; rfl, there⟩

/-- Two memories that agree on what is read give the same result and the same reads. -/
theorem run_congr {m' : ℕ → BitVec 8} (t : Access α) (agree : ∀ i ∈ reads m t, m i = m' i) :
    run m t = run m' t ∧ reads m t = reads m' t := by
  induction t with
  | ret a => exact ⟨rfl, rfl⟩
  | read i k ih =>
    have here : m i = m' i := agree i (by simp [reads])
    have there := ih (m i) fun x mem => agree x (by simp [reads, mem])
    constructor
    · rw [run, run, ← here]
      exact there.1
    · rw [reads, reads, ← here, there.2]

end Access

end UxNet
