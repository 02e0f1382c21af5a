import Mathlib.Tactic

/-!
# Address spaces with huge pages

An address space gives for each page of 4 KB whether it is mapped, and whether it is part of a huge page
of 2 MB. A mapping is as long as was asked for, rounded up to whole pages of its kind. `unmap` rounds its
length up to pages of 4 KB whatever is there, and is refused if one of its ends lies inside a huge page.

`Ledger` says what an address space holds besides what it held at the start: the areas on a list, which do
not overlap. `Ledger.map` and `Ledger.unmap` keep the list, and `Ledger.unmap_refused` is the case in which
an area stays.
-/

namespace UxNet.Paging

/-- The size of a page. -/
def pageSize : ℕ := 4096

/-- The size of a huge page. -/
def hugeSize : ℕ := 512 * pageSize

/-- A length rounded up to a multiple. -/
def up (multiple length : ℕ) : ℕ := (length + multiple - 1) / multiple * multiple

/-- The size of the pages of a mapping. -/
def grain (huge : Bool) : ℕ := if huge then hugeSize else pageSize

/-- For each page whether it is mapped, and whether by a huge page. -/
abbrev Space : Type := ℕ → Option Bool

/-- A mapping, with the length that was asked for. -/
structure Area where
  base : ℕ
  length : ℕ
  huge : Bool
deriving DecidableEq, Repr

/-- The bytes that a mapping takes. -/
def Area.size (a : Area) : ℕ := up (grain a.huge) a.length

/-- A page is between two addresses. -/
def Between (from_ to_ pg : ℕ) : Prop := from_ ≤ pg * pageSize ∧ pg * pageSize < to_

instance (from_ to_ pg : ℕ) : Decidable (Between from_ to_ pg) := inferInstanceAs (Decidable (_ ∧ _))

/-- A page is one of a mapping. -/
def Area.Has (a : Area) (pg : ℕ) : Prop := Between a.base (a.base + a.size) pg

instance (a : Area) (pg : ℕ) : Decidable (a.Has pg) := inferInstanceAs (Decidable (Between _ _ _))

namespace Space

/-- A huge page lies on both sides of an address. -/
def Splits (σ : Space) (address : ℕ) : Prop :=
  address % hugeSize ≠ 0 ∧ σ (address / pageSize) = some true

instance (σ : Space) (address : ℕ) : Decidable (σ.Splits address) := inferInstanceAs (Decidable (_ ∧ _))

/-- `mmap` grants a mapping. -/
def map (σ : Space) (a : Area) : Space := fun pg => if a.Has pg then some a.huge else σ pg

/-- Nothing is mapped between two addresses. -/
def clear (σ : Space) (from_ to_ : ℕ) : Space := fun pg => if Between from_ to_ pg then none else σ pg

/-- `munmap`, if it is not refused. -/
def unmap (σ : Space) (address length : ℕ) : Option Space :=
  if length = 0 ∨ address % pageSize ≠ 0 ∨ σ.Splits address ∨ σ.Splits (address + up pageSize length) then
    none
  else some (σ.clear address (address + up pageSize length))

/-- The pages of a new area are mapped. -/
lemma map_of_has {σ : Space} {a : Area} {pg : ℕ} (has : a.Has pg) : σ.map a pg = some a.huge := if_pos has

/-- The other pages are as before. -/
lemma map_of_not {σ : Space} {a : Area} {pg : ℕ} (has : ¬ a.Has pg) : σ.map a pg = σ pg := if_neg has

/-- The pages that are cleared are not mapped. -/
lemma clear_of_between {σ : Space} {from_ to_ pg : ℕ} (has : Between from_ to_ pg) :
    σ.clear from_ to_ pg = none := if_pos has

/-- The pages that are not cleared are as before. -/
lemma clear_of_not {σ : Space} {from_ to_ pg : ℕ} (has : ¬ Between from_ to_ pg) :
    σ.clear from_ to_ pg = σ pg := if_neg has

/-- What `mmap` may grant. -/
structure Fresh (σ : Space) (a : Area) : Prop where
  length : 0 < a.length
  aligned : a.base % grain a.huge = 0
  free : ∀ pg, a.Has pg → σ pg = none

/-- Huge pages are whole. -/
def Whole (σ : Space) : Prop := ∀ pg pg', pg / 512 = pg' / 512 → σ pg = some true → σ pg' = some true

end Space

/-! ## Rounding -/

/-- Areas consist of whole pages. -/
lemma pageSize_dvd_grain (huge : Bool) : pageSize ∣ grain huge := by
  cases huge with
  | false => exact dvd_rfl
  | true => exact Dvd.intro_left 512 rfl

/-- An area has a page at least. -/
lemma grain_pos (huge : Bool) : 0 < grain huge := by
  cases huge with
  | false => decide
  | true => decide

/-- Rounding up gives a multiple. -/
lemma dvd_up (multiple length : ℕ) : multiple ∣ up multiple length := Dvd.intro_left _ rfl

/-- Rounding up does not go down. -/
lemma le_up {multiple : ℕ} (pos : 0 < multiple) (length : ℕ) : length ≤ up multiple length := by
  unfold up
  have split := Nat.div_add_mod (length + multiple - 1) multiple
  have small := Nat.mod_lt (length + multiple - 1) pos
  rw [Nat.mul_comm] at split
  omega

/-- The next multiple is the least one that is not below. -/
lemma up_le {multiple length n : ℕ} (le : length ≤ n) (dvd : multiple ∣ n) : up multiple length ≤ n := by
  obtain ⟨k, rfl⟩ := dvd
  rcases Nat.eq_zero_or_pos multiple with rfl | pos
  · simp [up]
  · unfold up
    rw [Nat.mul_comm multiple k]
    apply Nat.mul_le_mul_right
    rw [Nat.div_le_iff_le_mul_add_pred pos]
    omega

/-- Rounding up leaves a multiple alone. -/
lemma up_eq_self {multiple length : ℕ} (pos : 0 < multiple) (dvd : multiple ∣ length) :
    up multiple length = length :=
  le_antisymm (up_le le_rfl dvd) (le_up pos length)

/-- Rounding to pages and then to huge pages is rounding to huge pages. -/
lemma up_pageSize_le (length : ℕ) (huge : Bool) : up pageSize length ≤ up (grain huge) length :=
  up_le (le_up (grain_pos huge) length) ((pageSize_dvd_grain huge).trans (dvd_up _ _))

/-- Whole pages that are whole huge pages. -/
lemma up_hugeSize_eq {length : ℕ} (dvd : hugeSize ∣ up pageSize length) :
    up pageSize length = up hugeSize length :=
  le_antisymm (up_pageSize_le length true) (up_le (le_up (by decide) length) dvd)

namespace Area

variable {a : Area} {pg : ℕ}

/-- An area is a whole number of its pages. -/
lemma grain_dvd_size (a : Area) : grain a.huge ∣ a.size := dvd_up _ _

/-- An area has the length that was asked for. -/
lemma length_le_size (a : Area) : a.length ≤ a.size := le_up (grain_pos _) _

/-- The first page of a mapping. -/
lemma has_first (pos : 0 < a.length) (aligned : a.base % grain a.huge = 0) :
    a.Has (a.base / pageSize) := by
  have dvd := (pageSize_dvd_grain a.huge).trans (Nat.dvd_of_mod_eq_zero aligned)
  have size := a.length_le_size
  unfold Has Between
  rw [Nat.div_mul_cancel dvd]
  omega

/-- The last page of a mapping. -/
lemma has_last (pos : 0 < a.length) (aligned : a.base % grain a.huge = 0) :
    a.Has ((a.base + a.size) / pageSize - 1) := by
  have grain := pageSize_dvd_grain a.huge
  obtain ⟨i, base⟩ := grain.trans (Nat.dvd_of_mod_eq_zero aligned)
  obtain ⟨j, size⟩ := grain.trans a.grain_dvd_size
  have long := a.length_le_size
  have one : 0 < j := by
    rcases Nat.eq_zero_or_pos j with rfl | pos'
    · omega
    · exact pos'
  unfold Has Between
  rw [base, size, ← Nat.mul_add, Nat.mul_div_cancel_left _ (by decide), Nat.sub_mul, Nat.mul_comm (i + j)]
  have : pageSize ≤ pageSize * j := Nat.le_mul_of_pos_right _ one
  have : 0 < pageSize := by decide
  rw [Nat.mul_add]
  omega

end Area

/-! ## What has been mapped -/

/-- What an address space holds besides what it held at the start. -/
structure Ledger (start σ : Space) (areas : List Area) : Prop where
  whole : σ.Whole
  proper : ∀ a ∈ areas, 0 < a.length ∧ a.base % grain a.huge = 0
  mapped : ∀ a ∈ areas, ∀ pg, a.Has pg → σ pg = some a.huge ∧ start pg = none
  rest : ∀ pg, (∀ a ∈ areas, ¬ a.Has pg) → σ pg = start pg
  apart : areas.Pairwise fun a b => ∀ pg, a.Has pg → ¬ b.Has pg

/-- A page of a mapping of huge pages, and another one of the same huge page. -/
lemma Area.has_of_block {a : Area} {pg pg' : ℕ} (huge : a.huge = true) (aligned : a.base % grain a.huge = 0)
    (same : pg / 512 = pg' / 512) (has : a.Has pg) : a.Has pg' := by
  have dvd := a.grain_dvd_size
  rw [huge] at aligned dvd
  obtain ⟨i, base⟩ := Nat.dvd_of_mod_eq_zero aligned
  obtain ⟨j, size⟩ := dvd
  unfold Has Between at has ⊢
  have unit : grain true = 512 * pageSize := rfl
  rw [base, size, unit] at has ⊢
  have pos : 0 < pageSize := by decide
  have scale : ∀ k : ℕ, 512 * pageSize * k = (512 * k) * pageSize := fun k => by ring
  rw [scale, scale, ← Nat.add_mul] at has ⊢
  have low := Nat.le_of_mul_le_mul_right has.1 pos
  have high := Nat.lt_of_mul_lt_mul_right has.2
  exact ⟨Nat.mul_le_mul_right _ (by omega), Nat.mul_lt_mul_of_pos_right (by omega) pos⟩

/-- Huge pages stay whole. -/
lemma Space.Whole.map {σ : Space} {a : Area} (whole : σ.Whole) (fresh : σ.Fresh a) : (σ.map a).Whole := by
  intro pg pg' same is
  by_cases huge : a.huge = true
  · by_cases has : a.Has pg
    · rw [Space.map_of_has (a.has_of_block huge fresh.aligned same has), huge]
    · have has' : ¬ a.Has pg' := fun has' => has (a.has_of_block huge fresh.aligned same.symm has')
      rw [Space.map_of_not has] at is
      rw [Space.map_of_not has']
      exact whole pg pg' same is
  · by_cases has : a.Has pg
    · rw [Space.map_of_has has] at is
      exact absurd (Option.some.inj is) huge
    · rw [Space.map_of_not has] at is
      have is' := whole pg pg' same is
      -- a page of a huge page is not free
      have has' : ¬ a.Has pg' := fun has' => by simp [fresh.free pg' has'] at is'
      rw [Space.map_of_not has']
      exact is'

namespace Ledger

variable {start σ σ' : Space} {a : Area} {areas areas' : List Area}

/-- At the start no area is on the books. -/
lemma nil (whole : start.Whole) : Ledger start start [] where
  whole := whole
  proper := nofun
  mapped := nofun
  rest := fun _ _ => rfl
  apart := .nil

/-- Without areas the space is what it was at the start. -/
lemma eq_start (h : Ledger start σ []) : σ = start := funext fun pg => h.rest pg nofun

/-- The order of the areas does not matter. -/
lemma perm (h : Ledger start σ areas) (same : areas.Perm areas') : Ledger start σ areas' where
  whole := h.whole
  proper := fun a mem => h.proper a (same.mem_iff.mpr mem)
  mapped := fun a mem => h.mapped a (same.mem_iff.mpr mem)
  rest := fun pg none => h.rest pg fun a mem => none a (same.mem_iff.mp mem)
  apart := (same.pairwise_iff fun disj pg hb ha => disj pg ha hb).mp h.apart

/-- A fresh area goes on the books. -/
lemma map (h : Ledger start σ areas) (fresh : σ.Fresh a) : Ledger start (σ.map a) (a :: areas) := by
  have others : ∀ b ∈ areas, ∀ pg, a.Has pg → ¬ b.Has pg := by
    intro b mem pg has has'
    have := (h.mapped b mem pg has').1
    rw [fresh.free pg has] at this
    cases this
  constructor
  · exact h.whole.map fresh
  · intro b mem
    rcases List.mem_cons.mp mem with rfl | mem
    · exact ⟨fresh.length, fresh.aligned⟩
    · exact h.proper b mem
  · intro b mem pg has
    rcases List.mem_cons.mp mem with rfl | mem
    · refine ⟨Space.map_of_has has, ?_⟩
      rw [← h.rest pg fun b mem => others b mem pg has]
      exact fresh.free pg has
    · have not : ¬ a.Has pg := fun has' => others b mem pg has' has
      rw [Space.map_of_not not]
      exact h.mapped b mem pg has
  · intro pg none
    rw [Space.map_of_not (none a List.mem_cons_self)]
    exact h.rest pg fun b mem => none b (List.mem_cons_of_mem _ mem)
  · exact List.pairwise_cons.mpr ⟨others, h.apart⟩

/-- The ends of a mapping do not lie inside a huge page. -/
lemma not_splits (h : Ledger start σ (a :: areas)) :
    ¬ σ.Splits a.base ∧ ¬ σ.Splits (a.base + a.size) := by
  obtain ⟨pos, aligned⟩ := h.proper a List.mem_cons_self
  have mapped := h.mapped a List.mem_cons_self
  have first := (mapped _ (Area.has_first pos aligned)).1
  have last := (mapped _ (Area.has_last pos aligned)).1
  have page := (pageSize_dvd_grain a.huge).trans (Nat.dvd_of_mod_eq_zero aligned)
  have page' := (pageSize_dvd_grain a.huge).trans a.grain_dvd_size
  cases huge : a.huge with
  | true =>
    have size := a.grain_dvd_size
    rw [huge] at aligned size
    have size : hugeSize ∣ a.size := size
    have base : hugeSize ∣ a.base := Nat.dvd_of_mod_eq_zero aligned
    refine ⟨fun split => split.1 (Nat.mod_eq_zero_of_dvd base), fun split => split.1 ?_⟩
    exact Nat.mod_eq_zero_of_dvd (base.add size)
  | false =>
    rw [huge] at first last
    refine ⟨fun split => ?_, fun split => ?_⟩
    · rw [split.2] at first
      cases first
    · -- a huge page at the end would be on both sides of it
      have block : (a.base + a.size) / pageSize / 512 = ((a.base + a.size) / pageSize - 1) / 512 := by
        obtain ⟨i, e⟩ := page.add page'
        have unit : hugeSize = 512 * pageSize := rfl
        have ne := split.1
        rw [e, unit, Nat.mul_comm pageSize i, Nat.mul_mod_mul_right] at ne
        rw [e, Nat.mul_div_cancel_left _ (by decide)]
        have : i % 512 ≠ 0 := fun z => ne (by rw [z, Nat.zero_mul])
        omega
      have both := h.whole _ _ block split.2
      rw [both] at last
      cases last

/-- `munmap` of a mapping, with a length that rounds up to what it takes. -/
lemma unmap (h : Ledger start σ (a :: areas)) {length : ℕ} (pos : 0 < length)
    (all : up pageSize length = a.size) :
    ∃ σ', σ.unmap a.base length = some σ' ∧ Ledger start σ' areas := by
  obtain ⟨first, last⟩ := h.not_splits
  have aligned := (h.proper a List.mem_cons_self).2
  have page := Nat.mod_eq_zero_of_dvd
    ((pageSize_dvd_grain a.huge).trans (Nat.dvd_of_mod_eq_zero aligned))
  have ok : ¬(length = 0 ∨ a.base % pageSize ≠ 0 ∨ σ.Splits a.base ∨
      σ.Splits (a.base + up pageSize length)) := by
    rw [all]
    rintro (zero | odd | split | split)
    · omega
    · exact odd page
    · exact first split
    · exact last split
  refine ⟨_, if_neg ok, ?_⟩
  rw [all]
  obtain ⟨others, apart⟩ := List.pairwise_cons.mp h.apart
  constructor
  · intro pg pg' same is
    by_cases has : a.Has pg
    · rw [Space.clear_of_between has] at is
      cases is
    · rw [Space.clear_of_not has] at is
      have is' := h.whole pg pg' same is
      have has' : ¬ a.Has pg' := by
        intro has'
        have huge := (h.mapped a List.mem_cons_self pg' has').1
        rw [is'] at huge
        exact has (a.has_of_block (Option.some.inj huge).symm aligned same.symm has')
      rw [Space.clear_of_not has']
      exact is'
  · exact fun b mem => h.proper b (List.mem_cons_of_mem _ mem)
  · intro b mem pg has
    have not : ¬ a.Has pg := fun has' => others b mem pg has' has
    rw [Space.clear_of_not not]
    exact h.mapped b (List.mem_cons_of_mem _ mem) pg has
  · intro pg none
    by_cases has : a.Has pg
    · rw [Space.clear_of_between has]
      exact (h.mapped a List.mem_cons_self pg has).2.symm
    · rw [Space.clear_of_not has]
      apply h.rest
      intro b mem
      rcases List.mem_cons.mp mem with rfl | mem
      · exact has
      · exact none b mem
  · exact apart

/-- `munmap` of a part of a mapping that ends inside a huge page is refused. -/
lemma unmap_refused (h : Ledger start σ areas) (mem : a ∈ areas) (huge : a.huge = true) {length : ℕ}
    (part : up pageSize length < a.size) (inside : ¬ hugeSize ∣ up pageSize length) :
    σ.unmap a.base length = none := by
  have aligned := (h.proper a mem).2
  rw [huge] at aligned
  have base : hugeSize ∣ a.base := Nat.dvd_of_mod_eq_zero aligned
  apply if_pos
  refine .inr (.inr (.inr ⟨?_, ?_⟩))
  · intro zero
    exact inside ((Nat.dvd_add_right base).mp (Nat.dvd_of_mod_eq_zero zero))
  · have page : pageSize ∣ a.base + up pageSize length :=
      ((Dvd.intro_left 512 rfl : pageSize ∣ hugeSize).trans base).add (dvd_up _ _)
    rw [← huge]
    refine (h.mapped a mem _ ?_).1
    unfold Area.Has Between
    rw [Nat.div_mul_cancel page]
    omega

end Ledger

end UxNet.Paging
