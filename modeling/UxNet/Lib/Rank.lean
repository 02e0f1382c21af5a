import Mathlib.Tactic

/-!
# Order statistics

The `(r + 1)`-th smallest member of a list is the one at place `r` once the list is sorted. More than `r`
members satisfy a property that goes down with the order exactly if that one does (`lt_countP_iff`), so
that it can be found without sorting: if the members are counted by the classes of a non-decreasing
classification, its class is the first one up to which more than `r` members are counted
(`lt_below_iff`).
-/

namespace UxNet.Rank

section Classes

variable {α : Type*} {f : α → ℕ} {xs : List α} {i j : ℕ}

/-- How many members are in a class. -/
def inClass (f : α → ℕ) (xs : List α) (i : ℕ) : ℕ := xs.countP fun x => f x = i

/-- How many members are in the classes below one. -/
def below (f : α → ℕ) (xs : List α) (i : ℕ) : ℕ := xs.countP fun x => f x < i

/-- No class is below the first. -/
lemma below_zero : below f xs 0 = 0 := by
  simp [below]

/-- No more members are below a class than there are. -/
lemma below_le_length : below f xs i ≤ xs.length := List.countP_le_length

/-- The members below the next class are those below this one and in it. -/
lemma below_succ : below f xs (i + 1) = below f xs i + inClass f xs i := by
  unfold below inClass
  induction xs with
  | nil => rfl
  | cons x xs ih =>
    simp only [List.countP_cons, ih, decide_eq_true_eq]
    split_ifs
    all_goals omega

/-- A higher class has no fewer members below it. -/
lemma below_mono (le : i ≤ j) : below f xs i ≤ below f xs j := by
  apply List.countP_mono_left
  intro x _ lt
  simp only [decide_eq_true_eq] at lt ⊢
  omega

/-- Classes that are put together have the members of each. -/
lemma sum_inClass (g : ℕ → ℕ) {n : ℕ} (all : ∀ x ∈ xs, f x < n) (r : ℕ) :
    ((List.range n).map fun i => if g i = r then inClass f xs i else 0).sum
      = xs.countP fun x => g (f x) = r := by
  show ∑ i ∈ Finset.range n, (if g i = r then inClass f xs i else 0) = _
  induction xs with
  | nil => simp [inClass]
  | cons x xs ih =>
    have here : f x ∈ Finset.range n := Finset.mem_range.mpr (all x (List.mem_cons_self ..))
    have rest := ih fun y mem => all y (List.mem_cons_of_mem _ mem)
    have one : ∀ i, (if g i = r then inClass f (x :: xs) i else 0)
        = (if g i = r then inClass f xs i else 0) + if f x = i then if g i = r then 1 else 0 else 0 := by
      intro i
      simp only [inClass, List.countP_cons, decide_eq_true_eq]
      split_ifs
      all_goals rfl
    rw [Finset.sum_congr rfl fun i _ => one i, Finset.sum_add_distrib, rest, Finset.sum_ite_eq,
      if_pos here, List.countP_cons]
    simp only [decide_eq_true_eq]

end Classes

variable {α : Type*} [LinearOrder α]

/-- Where a member is to be put into a sorted list. -/
lemma findIdx_lt_iff {l : List α} (sorted : l.Pairwise (· ≤ ·)) (x : α) {r : ℕ} (le : r ≤ l.length) :
    (l.findIdx fun e => x < e) = r ↔ (∀ e ∈ l.take r, e ≤ x) ∧ ∀ e ∈ l.drop r, x < e := by
  induction l generalizing r with
  | nil =>
    obtain rfl : r = 0 := Nat.le_zero.mp le
    simp
  | cons a l ih =>
    obtain ⟨first, sorted⟩ := List.pairwise_cons.mp sorted
    rw [List.findIdx_cons]
    cases r with
    | zero =>
      by_cases lt : x < a
      · have above : ∀ e ∈ l, x < e := fun e mem => lt_of_lt_of_le lt (first e mem)
        simpa [lt] using above
      · simp [lt]
    | succ r =>
      by_cases lt : x < a
      · simp [lt]
      · have rest := ih sorted (Nat.le_of_succ_le_succ le)
        simp [lt, rest, le_of_not_gt lt]

/-- The `(r + 1)`-th smallest member. -/
def nth (xs : List α) (r : ℕ) : Option α := (xs.mergeSort)[r]?

/-- Merge sort sorts. -/
lemma pairwise_mergeSort (xs : List α) : xs.mergeSort.Pairwise (· ≤ ·) := by
  have sorted : (xs.mergeSort fun a b => decide (a ≤ b)).Pairwise fun a b => decide (a ≤ b) = true :=
    List.pairwise_mergeSort (by intro a b c; simpa using le_trans)
      (by intro a b; simpa using le_total a b) xs
  simpa using sorted

/-- More than `r` members satisfy a property that goes down exactly if the one at place `r` does. -/
lemma lt_countP_iff {l : List α} (sorted : l.Pairwise (· ≤ ·)) {p : α → Bool}
    (down : ∀ {a b}, a ≤ b → p b = true → p a = true) {r : ℕ} {x : α} (at' : l[r]? = some x) :
    r < l.countP p ↔ p x = true := by
  induction l generalizing r with
  | nil => simp at at'
  | cons a l ih =>
    obtain ⟨first, sorted⟩ := List.pairwise_cons.mp sorted
    cases r with
    | zero =>
      obtain rfl : a = x := Option.some.inj at'
      cases pa : p a with
      | true => simp [pa]
      | false =>
        have none : l.countP p = 0 := by
          rw [List.countP_eq_zero]
          intro b mem pb
          rw [down (first b mem) pb] at pa
          cases pa
        simp [pa, none]
    | succ r =>
      have rest := ih sorted at'
      have mem : x ∈ l := List.mem_of_getElem? at'
      cases px : p x with
      | true =>
        have pa := down (first x mem) px
        rw [List.countP_cons, if_pos pa]
        have := rest.mpr px
        simp
        omega
      | false =>
        have le : l.countP p ≤ r := by
          by_contra lt
          rw [rest.mp (by omega)] at px
          cases px
        have := List.countP_cons (p := p) (a := a) (l := l)
        split at this
        · simp
          omega
        · simp
          omega

/-- An element has a rank below the count of a lower set exactly if it is in the set. -/
lemma lt_countP_nth_iff {xs : List α} {p : α → Bool} (down : ∀ {a b}, a ≤ b → p b = true → p a = true)
    {r : ℕ} {x : α} (at' : nth xs r = some x) : r < xs.countP p ↔ p x = true := by
  rw [← (List.mergeSort_perm xs _).countP_eq p]
  exact lt_countP_iff (pairwise_mergeSort xs) down at'

/-- A higher rank has a larger element. -/
lemma nth_mono {xs : List α} {r r' : ℕ} {x x' : α} (le : r ≤ r') (at' : nth xs r = some x)
    (at'' : nth xs r' = some x') : x ≤ x' := by
  rcases Nat.eq_or_lt_of_le le with rfl | lt
  · exact le_of_eq (Option.some.inj (at'.symm.trans at''))
  · obtain ⟨h, rfl⟩ := List.getElem?_eq_some_iff.mp at'
    obtain ⟨h', rfl⟩ := List.getElem?_eq_some_iff.mp at''
    exact List.pairwise_iff_getElem.mp (pairwise_mergeSort xs) r r' h h' lt

/-- A rank is less than the length. -/
lemma lt_length_of_nth {xs : List α} {r : ℕ} {x : α} (at' : nth xs r = some x) : r < xs.length := by
  obtain ⟨lt, _⟩ := List.getElem?_eq_some_iff.mp at'
  rwa [List.length_mergeSort] at lt

/-- The ranks of a sorted list are its positions. -/
lemma nth_of_sorted {l : List α} {r : ℕ} {x : α} (sorted : l.Pairwise (· ≤ ·)) (at' : l[r]? = some x) :
    nth l r = some x := by
  rw [nth, List.mergeSort_of_pairwise (by simpa using sorted)]
  exact at'

/-- Every rank below the length has an element. -/
lemma nth_isSome (xs : List α) {r : ℕ} (lt : r < xs.length) : ∃ x, nth xs r = some x :=
  ⟨_, List.getElem?_eq_getElem (by rw [List.length_mergeSort]; exact lt)⟩

/-- More than `r` members are below a class exactly if the one at place `r` is. -/
lemma lt_below_iff {f : α → ℕ} {xs : List α} {i r : ℕ} {x : α} (mono : Monotone f)
    (at' : nth xs r = some x) : r < below f xs i ↔ f x < i := by
  have down : ∀ {a b}, a ≤ b → decide (f b < i) = true → decide (f a < i) = true := by
    intro a b le lt
    simp only [decide_eq_true_eq] at lt ⊢
    exact lt_of_le_of_lt (mono le) lt
  rw [below, lt_countP_nth_iff down at', decide_eq_true_eq]

end UxNet.Rank
