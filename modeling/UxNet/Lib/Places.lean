import Mathlib.Tactic

/-!
# Things kept in places

Every place keeps a list of things. `Kept` says that each thing of a kind is in one place and once there.
It stays so if a thing comes, goes or is moved. A sum over the places changes by what changes in one of them.
-/

namespace UxNet.Places

variable {ι α : Type} {H H' : ι → List α} {P : α → Prop} {x y : ι} {a : α}

/-- The things that satisfy `P` are each in one place, and once there. -/
structure Kept (H : ι → List α) (P : α → Prop) : Prop where
  nodup : ∀ x, (H x).Nodup
  unique : ∀ {a x y}, a ∈ H x → a ∈ H y → x = y
  covers : ∀ a, P a ↔ ∃ x, a ∈ H x

namespace Kept

/-- Everything that is kept is in one place. -/
lemma existsUnique (h : Kept H P) (is : P a) : ∃! x, a ∈ H x := by
  obtain ⟨x, mem⟩ := (h.covers a).mp is
  exact ⟨x, mem, fun y mem' => h.unique mem' mem⟩

/-- The places do not depend on how the property is put. -/
lemma congr {Q : α → Prop} (h : Kept H P) (same : ∀ a, P a ↔ Q a) : Kept H Q where
  nodup := h.nodup
  unique := h.unique
  covers := fun a => (same a).symm.trans (h.covers a)

/-- A new thing is put to `y`. -/
lemma add (h : Kept H P) (new : ¬ P a) (put : (H' y).Perm (a :: H y)) (rest : ∀ z, z ≠ y → H' z = H z) :
    Kept H' fun b => P b ∨ b = a := by
  have nowhere : ∀ z, a ∉ H z := fun z mem => new ((h.covers a).mpr ⟨z, mem⟩)
  have mem_iff : ∀ b z, b ∈ H' z ↔ b ∈ H z ∨ b = a ∧ z = y := by
    intro b z
    by_cases zy : z = y
    · subst zy
      rw [put.mem_iff, List.mem_cons, and_iff_left rfl, or_comm]
    · rw [rest z zy, or_iff_left fun here => zy here.2]
  refine ⟨?_, ?_, ?_⟩
  · intro z
    by_cases zy : z = y
    · subst zy
      exact put.symm.nodup (List.nodup_cons.mpr ⟨nowhere z, h.nodup z⟩)
    · rw [rest z zy]
      exact h.nodup z
  · intro b z z' mem mem'
    rcases (mem_iff b z).mp mem with old | ⟨rfl, rfl⟩ <;> rcases (mem_iff b z').mp mem' with old' | ⟨e, e'⟩
    · exact h.unique old old'
    · exact absurd (e ▸ old) (nowhere z)
    · exact absurd old' (nowhere z')
    · exact e'.symm
  · intro b
    constructor
    · rintro (is | rfl)
      · obtain ⟨z, mem⟩ := (h.covers b).mp is
        exact ⟨z, (mem_iff b z).mpr (.inl mem)⟩
      · exact ⟨y, (mem_iff b y).mpr (.inr ⟨rfl, rfl⟩)⟩
    · rintro ⟨z, mem⟩
      rcases (mem_iff b z).mp mem with old | ⟨rfl, _⟩
      · exact .inl ((h.covers b).mpr ⟨z, old⟩)
      · exact .inr rfl

/-- A thing is taken away from `x`. -/
lemma remove (h : Kept H P) (taken : (H x).Perm (a :: H' x)) (rest : ∀ z, z ≠ x → H' z = H z) :
    Kept H' fun b => P b ∧ b ≠ a := by
  have here : a ∈ H x := taken.mem_iff.mpr List.mem_cons_self
  obtain ⟨gone, nodup⟩ := List.nodup_cons.mp (taken.nodup (h.nodup x))
  have mem_iff : ∀ b z, b ∈ H' z ↔ b ∈ H z ∧ b ≠ a := by
    intro b z
    by_cases zx : z = x
    · subst zx
      rw [taken.mem_iff, List.mem_cons]
      constructor
      · intro mem
        exact ⟨.inr mem, fun e => gone (e ▸ mem)⟩
      · rintro ⟨mem, ne⟩
        exact mem.resolve_left ne
    · rw [rest z zx, iff_self_and]
      rintro mem rfl
      exact zx (h.unique mem here)
  refine ⟨?_, ?_, ?_⟩
  · intro z
    by_cases zx : z = x
    · exact zx ▸ nodup
    · rw [rest z zx]
      exact h.nodup z
  · intro b z z' mem mem'
    exact h.unique ((mem_iff b z).mp mem).1 ((mem_iff b z').mp mem').1
  · intro b
    rw [h.covers b]
    constructor
    · rintro ⟨⟨z, mem⟩, ne⟩
      exact ⟨z, (mem_iff b z).mpr ⟨mem, ne⟩⟩
    · rintro ⟨z, mem⟩
      exact ⟨⟨z, ((mem_iff b z).mp mem).1⟩, ((mem_iff b z).mp mem).2⟩

/-- The thing `a` is taken from `x` and put to `y`. -/
lemma move (h : Kept H P) (ne : x ≠ y) (taken : (H x).Perm (a :: H' x)) (put : (H' y).Perm (a :: H y))
    (rest : ∀ z, z ≠ x → z ≠ y → H' z = H z) : Kept H' P := by
  classical
  have is : P a := (h.covers a).mpr ⟨x, taken.mem_iff.mpr List.mem_cons_self⟩
  have out : Kept (Function.update H x (H' x)) fun b => P b ∧ b ≠ a := by
    apply h.remove (x := x)
    · rwa [Function.update_self]
    · exact fun z zx => Function.update_of_ne zx _ _
  have back : Kept H' fun b => (P b ∧ b ≠ a) ∨ b = a := by
    apply out.add (y := y) fun h => h.2 rfl
    · rwa [Function.update_of_ne ne.symm]
    · intro z zy
      by_cases zx : z = x
      · rw [zx, Function.update_self]
      · rw [Function.update_of_ne zx, rest z zx zy]
  apply back.congr
  intro b
  by_cases ba : b = a
  · simp [ba, is]
  · simp [ba]

end Kept

/-- A sum over the places, when one of them changes. -/
lemma sum_update {M : Type} [Fintype ι] [DecidableEq ι] [AddCommMonoid M] (g : α → M) (f : ι → α) (i : ι)
    (a : α) : (∑ j, g (Function.update f i a j)) + g (f i) = (∑ j, g (f j)) + g a := by
  have other : ∀ j ∈ Finset.univ.erase i, g (Function.update f i a j) = g (f j) := by
    intro j mem
    rw [Function.update_of_ne (Finset.ne_of_mem_erase mem)]
  rw [← Finset.add_sum_erase _ _ (Finset.mem_univ i), ← Finset.add_sum_erase _ (fun j => g (f j))
    (Finset.mem_univ i), Finset.sum_congr rfl other, Function.update_self]
  abel

end UxNet.Places
