import Mathlib.Data.BitVec
import UxNet.Perf.Histogram

/-!
# The printed histogram

`LatencyHistogram::print`: the number of samples, five percentiles, the maximum and the mean, and a
histogram of fourteen rows with a bar of up to 40 characters each. A row is made of buckets: a bucket is
added to the first row whose edge is above the smallest latency of the bucket. Every edge is the border of
two buckets, so the rows count the samples themselves (`rowOf_bucket`).
-/

namespace UxNet.Perf

/-- `edges`. -/
def edges : List ℕ :=
  [100, 250, 500, 1000, 2500, 5000, 10000, 25000, 50000, 100000, 250000, 500000, 1000000, 2 ^ 64 - 1]

/-- `labels`. -/
def labels : List String :=
  ["  <100ns", "100-250ns", "250-500ns", "0.5-1us", "1-2.5us", "2.5-5us", "5-10us", "10-25us", "25-50us",
    "50-100us", "0.1-0.25ms", "0.25-0.5ms", "0.5-1ms", "  >1ms"]

/-- The row that a bucket is added to. -/
def rowOf (lo : ℕ) : ℕ := edges.findIdx fun edge => lo < edge

/-- A row as it is printed. -/
structure Row where
  label : String
  count : BitVec 64
  bars : ℕ
deriving DecidableEq, Repr

/-- What `print` prints. -/
structure Report where
  samples : BitVec 64
  percentiles : List ℕ
  max : BitVec 64
  mean : BitVec 64
  rows : List Row
deriving DecidableEq, Repr

namespace LatencyHistogram

/-- `rows`. -/
def rows (h : LatencyHistogram) : List (BitVec 64) :=
  h.buckets.zipIdx.foldl (fun rows b =>
    if b.1 = 0 then rows else rows.modify (rowOf (bucketLoNs b.2)) (· + b.1))
    (List.replicate edges.length 0)

/-- `rmax`. -/
def rmax (rows : List (BitVec 64)) : BitVec 64 := rows.foldl (fun m row => if m < row then row else m) 1

/-- `bars`, an `int`. -/
def bars (m row : BitVec 64) : ℕ := ((row * 40 / m).setWidth 32).toInt.toNat

/-- `LatencyHistogram::print`; the ranks of the five percentiles are floating point in the source. -/
def print (ranks : List (BitVec 64 → BitVec 64)) (h : LatencyHistogram) : Option Report :=
  if h.count = 0 then none
  else some
    { samples := h.count
      percentiles := ranks.map fun rank => h.percentileNs rank
      max := h.maxNs
      mean := h.sumNs / h.count
      rows := List.zipWith (fun label row => { label := label, count := row, bars := bars (rmax h.rows) row })
        labels h.rows }

end LatencyHistogram

/-! ## Rows and samples -/

/-- A latency is in the range of a row: at or above the edges before it, and below the others. The last
edge is there to be above everything. -/
def InRow (r x : ℕ) : Prop := (∀ edge ∈ edges.dropLast.take r, edge ≤ x) ∧ ∀ edge ∈ edges.dropLast.drop r, x < edge

instance (r x : ℕ) : Decidable (InRow r x) := inferInstanceAs (Decidable (_ ∧ _))

/-- A later bucket does not begin earlier. -/
lemma bucketLoNs_mono : Monotone bucketLoNs := by
  intro i j le
  unfold bucketLoNs kR0 kR1 kR2 kR3
  split_ifs
  all_goals omega

/-- A bucket begins at or below its samples. -/
lemma bucketLoNs_le (x : ℕ) : bucketLoNs (nsToBucket x) ≤ x := by
  unfold bucketLoNs nsToBucket kOverflow kR0 kR1 kR2 kR3
  split_ifs
  all_goals omega

/-- No edge lies inside a bucket. -/
lemma bucketLoNs_lt_iff {edge : ℕ} (mem : edge ∈ edges.dropLast) (x : ℕ) :
    bucketLoNs (nsToBucket x) < edge ↔ x < edge := by
  have border : ∀ edge ∈ edges.dropLast, bucketLoNs (nsToBucket edge) = edge := by decide
  constructor
  · intro lt
    by_contra ge
    have above := bucketLoNs_mono (nsToBucket_mono (Nat.le_of_not_lt ge))
    rw [border edge mem] at above
    omega
  · exact lt_of_le_of_lt (bucketLoNs_le x)

/-- The last bucket begins below the largest number. -/
lemma bucketLoNs_lt_last (x : ℕ) : bucketLoNs (nsToBucket x) < 2 ^ 64 - 1 := by
  have top := bucketLoNs_mono (Nat.le_of_lt_succ (nsToBucket_lt x))
  have value : bucketLoNs 3700 = 1000000 := by decide
  omega

/-- Every bucket has a row. -/
lemma rowOf_lt (x : ℕ) : rowOf (bucketLoNs (nsToBucket x)) < 14 := by
  have mem : 2 ^ 64 - 1 ∈ edges := by decide
  exact List.findIdx_lt_length_of_exists ⟨_, mem, decide_eq_true (bucketLoNs_lt_last x)⟩

/-- A latency is counted in the row it belongs to. -/
lemma rowOf_bucket (x : ℕ) {r : ℕ} (le : r ≤ 13) : rowOf (bucketLoNs (nsToBucket x)) = r ↔ InRow r x := by
  have cut : rowOf (bucketLoNs (nsToBucket x))
      = edges.dropLast.findIdx fun edge => bucketLoNs (nsToBucket x) < edge := by
    have all : edges = edges.dropLast ++ [2 ^ 64 - 1] := by decide
    rw [rowOf, all, List.findIdx_append, List.findIdx_singleton,
      decide_eq_true (bucketLoNs_lt_last x)]
    split
    · rfl
    · rename_i out
      exact (Nat.zero_add _).trans (le_antisymm (Nat.le_of_not_lt out) List.findIdx_le_length)
  rw [cut, Rank.findIdx_lt_iff (by decide) _ le, InRow]
  refine and_congr (forall₂_congr fun edge mem => ?_) (forall₂_congr fun edge mem => ?_)
  · rw [← not_lt, ← not_lt, bucketLoNs_lt_iff (List.mem_of_mem_take mem)]
  · exact bucketLoNs_lt_iff (List.mem_of_mem_drop mem) x

/-! ## What is printed -/

namespace LatencyHistogram

/-- A sum modulo `2 ^ 64`, term by term. -/
lemma ofNat_sum (l : List ℕ) : (l.map (BitVec.ofNat 64)).sum = BitVec.ofNat 64 l.sum := by
  induction l with
  | nil => rfl
  | cons n l ih => rw [List.map_cons, List.sum_cons, ih, List.sum_cons, BitVec.ofNat_add]

/-- The loop over the buckets, with some of them to go. -/
lemma foldl_rows (bs : List (BitVec 64 × ℕ)) (rows : List (BitVec 64)) (r : ℕ) :
    (bs.foldl (fun rows b => if b.1 = 0 then rows else rows.modify (rowOf (bucketLoNs b.2)) (· + b.1)) rows)[r]?
      = rows[r]?.map (· + (bs.map fun b => if rowOf (bucketLoNs b.2) = r then b.1 else 0).sum) := by
  induction bs generalizing rows with
  | nil => simp
  | cons b bs ih =>
    rw [List.foldl_cons, ih, List.map_cons, List.sum_cons]
    by_cases zero : b.1 = 0
    · simp [zero]
    · rw [if_neg zero, List.getElem?_modify]
      by_cases here : rowOf (bucketLoNs b.2) = r
      · simp [here, Function.comp_def, BitVec.add_assoc]
      · simp [here]

/-- The buckets of some samples, with their numbers. -/
lemma zipIdx_buckets (xs : List (BitVec 64)) :
    (ofSamples xs).buckets.zipIdx = (List.range kNumBuckets).map fun i =>
      (BitVec.ofNat 64 (Rank.inClass nsToBucket (xs.map BitVec.toNat) i), i) := by
  apply List.ext_getElem?
  intro i
  rw [List.getElem?_zipIdx, buckets_ofSamples, List.getElem?_map]
  split
  · rename_i lt
    rw [List.getElem?_range lt]
    simp
  · rename_i ge
    rw [List.getElem?_eq_none (by simpa using ge)]
    rfl

/-- A row counts the samples in its range, as far as a counter of 64 bits can tell. -/
lemma rows_ofSamples (xs : List (BitVec 64)) {r : ℕ} (le : r ≤ 13) :
    (ofSamples xs).rows[r]? = some (BitVec.ofNat 64 (xs.countP fun x => InRow r x.toNat)) := by
  have lt : r < edges.length := Nat.lt_succ_of_le le
  have start : (List.replicate edges.length (0 : BitVec 64))[r]? = some 0 := by
    rw [List.getElem?_replicate, if_pos lt]
  have weights : ((List.range kNumBuckets).map fun i => if rowOf (bucketLoNs i) = r then
      BitVec.ofNat 64 (Rank.inClass nsToBucket (xs.map BitVec.toNat) i) else 0)
      = ((List.range kNumBuckets).map fun i => if rowOf (bucketLoNs i) = r then
        Rank.inClass nsToBucket (xs.map BitVec.toNat) i else 0).map (BitVec.ofNat 64) := by
    rw [List.map_map]
    apply List.map_congr_left
    intro i _
    show _ = BitVec.ofNat 64 (if _ then _ else _)
    split
    · rfl
    · rfl
  have bucket : ∀ x ∈ xs.map BitVec.toNat, nsToBucket x < kNumBuckets := fun x _ => nsToBucket_lt x
  have regroup := Rank.sum_inClass (fun i => rowOf (bucketLoNs i)) bucket r
  rw [rows, foldl_rows, start, zipIdx_buckets, List.map_map]
  show some (0 + ((List.range kNumBuckets).map fun i => if rowOf (bucketLoNs i) = r then
    BitVec.ofNat 64 (Rank.inClass nsToBucket (xs.map BitVec.toNat) i) else 0).sum) = _
  rw [weights, ofNat_sum, regroup, List.countP_map]
  refine congrArg some ((BitVec.zero_add _).trans (congrArg _ ?_))
  apply List.countP_congr
  intro x _
  simp only [Function.comp_apply, decide_eq_true_eq]
  exact rowOf_bucket x.toNat le

/-- There are 14 rows. -/
lemma length_rows (h : LatencyHistogram) : h.rows.length = 14 := by
  have keeps : ∀ (bs : List (BitVec 64 × ℕ)) (rows : List (BitVec 64)), (bs.foldl (fun rows b =>
      if b.1 = 0 then rows else rows.modify (rowOf (bucketLoNs b.2)) (· + b.1)) rows).length = rows.length := by
    intro bs
    induction bs with
    | nil => exact fun _ => rfl
    | cons b bs ih =>
      intro rows
      rw [List.foldl_cons, ih]
      split
      · rfl
      · rw [List.length_modify]
  rw [rows, keeps]
  rfl

/-- A loop that keeps the largest value it has seen. -/
lemma foldl_max (xs : List (BitVec 64)) (m : BitVec 64) :
    (xs.foldl (fun m x => if m < x then x else m) m = m ∨ xs.foldl (fun m x => if m < x then x else m) m ∈ xs) ∧
    m ≤ xs.foldl (fun m x => if m < x then x else m) m ∧
    ∀ x ∈ xs, x ≤ xs.foldl (fun m x => if m < x then x else m) m := by
  induction xs generalizing m with
  | nil => exact ⟨.inl rfl, BitVec.le_refl m, nofun⟩
  | cons x xs ih =>
    rw [List.foldl_cons]
    obtain ⟨from', above, all⟩ := ih (if m < x then x else m)
    have both : m ≤ (if m < x then x else m) ∧ x ≤ (if m < x then x else m) := by
      split
      · rename_i lt
        exact ⟨BitVec.le_of_lt lt, BitVec.le_refl x⟩
      · rename_i ge
        exact ⟨BitVec.le_refl m, BitVec.not_lt.mp ge⟩
    refine ⟨?_, BitVec.le_trans both.1 above, ?_⟩
    · rcases from' with here | there
      · rw [here]
        split
        · exact .inr (List.mem_cons_self ..)
        · exact .inl rfl
      · exact .inr (List.mem_cons_of_mem _ there)
    · intro y mem
      rcases List.mem_cons.mp mem with rfl | mem
      · exact BitVec.le_trans both.2 above
      · exact all y mem

/-- `max_ns_` is the largest sample so far. -/
lemma maxNs_foldl (xs : List (BitVec 64)) (h : LatencyHistogram) :
    (xs.foldl add h).maxNs = xs.foldl (fun m x => if m < x then x else m) h.maxNs := by
  induction xs generalizing h with
  | nil => rfl
  | cons x xs ih => exact ih (h.add x)

/-- `max_ns_` is the largest sample. -/
lemma maxNs_ofSamples {xs : List (BitVec 64)} (nonempty : xs ≠ []) :
    (ofSamples xs).maxNs ∈ xs ∧ ∀ x ∈ xs, x ≤ (ofSamples xs).maxNs := by
  obtain ⟨from', _, all⟩ := foldl_max xs 0
  have loop : (ofSamples xs).maxNs = xs.foldl (fun m x => if m < x then x else m) 0 := maxNs_foldl xs new
  rw [loop]
  refine ⟨?_, all⟩
  rcases from' with zero | mem
  · -- no sample is larger than 0, so they are all 0
    obtain ⟨x, mem⟩ := List.exists_mem_of_ne_nil xs nonempty
    have le := all x mem
    rw [zero] at le ⊢
    obtain rfl : x = 0 := BitVec.le_antisymm le (Nat.zero_le _)
    exact mem
  · exact mem

/-- `sum_ns_` is the sum of the samples. -/
lemma sumNs_ofSamples (xs : List (BitVec 64)) :
    (ofSamples xs).sumNs = BitVec.ofNat 64 (xs.map BitVec.toNat).sum := by
  induction xs using List.reverseRecOn with
  | nil => rfl
  | append_singleton xs x ih =>
    have last : (ofSamples (xs ++ [x])).sumNs = (ofSamples xs).sumNs + x := by
      rw [ofSamples, List.foldl_append]
      rfl
    rw [last, ih, List.map_append, List.sum_append, BitVec.ofNat_add]
    simp

/-- The rows count every sample once. -/
lemma sum_rows (xs : List (BitVec 64)) :
    ((List.range 14).map fun r => xs.countP fun x => InRow r x.toNat).sum = xs.length := by
  have row : ∀ x ∈ xs, rowOf (bucketLoNs (nsToBucket x.toNat)) < 14 := fun x _ => rowOf_lt x.toNat
  have once := Rank.sum_inClass (fun _ => 0) row 0
  rw [List.countP_eq_length.mpr (by simp)] at once
  rw [← once]
  congr 1
  apply List.map_congr_left
  intro r mem
  rw [if_pos rfl, Rank.inClass]
  apply List.countP_congr
  intro x _
  simp only [decide_eq_true_eq]
  exact (rowOf_bucket x.toNat (Nat.le_of_lt_succ (List.mem_range.mp mem))).symm

/-- A bar is at most 40 long, and 40 for the largest row. -/
lemma bars_spec {m row : BitVec 64} (pos : 1 ≤ m) (le : row ≤ m) (fits : 40 * m.toNat < 2 ^ 64) :
    bars m row ≤ 40 ∧ (row = m → bars m row = 40) := by
  have pos : 0 < m.toNat := pos
  have le : row.toNat ≤ m.toNat := le
  have value : (row * 40 / m).toNat = row.toNat * 40 / m.toNat := by
    rw [BitVec.toNat_udiv, BitVec.toNat_mul]
    show row.toNat * 40 % 2 ^ 64 / m.toNat = _
    rw [Nat.mod_eq_of_lt (by omega)]
  have small : row.toNat * 40 / m.toNat ≤ 40 := by
    rw [Nat.div_le_iff_le_mul_add_pred pos]
    nlinarith
  have same : bars m row = row.toNat * 40 / m.toNat := by
    have narrow : ((row * 40 / m).setWidth 32).toNat = row.toNat * 40 / m.toNat := by
      rw [BitVec.toNat_setWidth, value]
      omega
    rw [bars, BitVec.toInt_eq_toNat_cond, narrow, if_pos (by omega), Int.toNat_natCast]
  rw [same]
  refine ⟨small, ?_⟩
  rintro rfl
  exact Nat.mul_div_cancel_left 40 pos

/-- Each row counts the samples in its range. -/
lemma rows_eq (xs : List (BitVec 64)) : (ofSamples xs).rows
    = (List.range 14).map fun r => BitVec.ofNat 64 (xs.countP fun x => InRow r x.toNat) := by
  apply List.ext_getElem?
  intro r
  rcases Nat.lt_or_ge r 14 with lt | ge
  · rw [rows_ofSamples xs (Nat.le_of_lt_succ lt), List.getElem?_map, List.getElem?_range lt]
    rfl
  · rw [List.getElem?_eq_none (by rw [length_rows]; exact ge), List.getElem?_eq_none (by simpa using ge)]

/-- A row does not overflow if the count does not. -/
lemma toNat_row {xs : List (BitVec 64)} (fits : xs.length < 2 ^ 64) (r : ℕ) :
    (BitVec.ofNat 64 (xs.countP fun x => InRow r x.toNat)).toNat = xs.countP fun x => InRow r x.toNat := by
  have le : (xs.countP fun x => InRow r x.toNat) ≤ xs.length := List.countP_le_length
  rw [BitVec.toNat_ofNat, Nat.mod_eq_of_lt (by omega)]

/-- If there is a sample, `rmax` is the largest row. -/
lemma rmax_rows {xs : List (BitVec 64)} (nonempty : xs ≠ []) (fits : xs.length < 2 ^ 64) :
    rmax (ofSamples xs).rows ∈ (ofSamples xs).rows ∧ (rmax (ofSamples xs).rows).toNat ≤ xs.length := by
  obtain ⟨from', one, all⟩ := foldl_max (ofSamples xs).rows 1
  have mem : rmax (ofSamples xs).rows ∈ (ofSamples xs).rows := by
    rcases from' with is | mem
    · -- a row with a sample counts one at least, and none counts more
      obtain ⟨x, here⟩ := List.exists_mem_of_ne_nil xs nonempty
      have lt := rowOf_lt x.toNat
      have inside := (rowOf_bucket x.toNat (Nat.le_of_lt_succ lt)).mp rfl
      generalize rowOf (bucketLoNs (nsToBucket x.toNat)) = r at lt inside
      have mem := List.mem_of_getElem? (rows_ofSamples xs (Nat.le_of_lt_succ lt))
      have some : 0 < xs.countP fun x => InRow r x.toNat :=
        List.countP_pos_iff.mpr ⟨x, here, decide_eq_true inside⟩
      rw [← toNat_row fits] at some
      have le := all _ mem
      rw [is] at le
      have same := BitVec.le_antisymm le some
      rw [rmax, is, ← same]
      exact mem
    · exact mem
  refine ⟨mem, ?_⟩
  rw [rows_eq] at mem ⊢
  obtain ⟨r, _, eq⟩ := List.mem_map.mp mem
  rw [← eq, toNat_row fits]
  exact List.countP_le_length

/-- For every list of samples that is not empty, and not too long for the counters: the numbers that `print`
prints are those of the samples. Each row counts exactly the samples in the range of its label, though the samples are kept in
coarser buckets; every sample is in one row; a bar is at most 40 long, and that of the largest row is. -/
theorem print_exact {xs : List (BitVec 64)} (nonempty : xs ≠ []) (fits : 40 * xs.length < 2 ^ 64)
    (total : (xs.map BitVec.toNat).sum < 2 ^ 64) (ranks : List (BitVec 64 → BitVec 64)) :
    ∃ rep, (ofSamples xs).print ranks = some rep ∧
      rep.samples.toNat = xs.length ∧
      rep.max ∈ xs ∧ (∀ x ∈ xs, x ≤ rep.max) ∧
      rep.mean.toNat = (xs.map BitVec.toNat).sum / xs.length ∧
      rep.rows.map Row.label = labels ∧
      (∀ r row, rep.rows[r]? = some row →
        row.count.toNat = (xs.countP fun x => InRow r x.toNat) ∧ row.bars ≤ 40) ∧
      (rep.rows.map fun row => row.count.toNat).sum = xs.length ∧
      ∃ row ∈ rep.rows, row.bars = 40 ∧ ∀ row' ∈ rep.rows, row'.count ≤ row.count := by
  have small : xs.length < 2 ^ 64 := by omega
  have count : (ofSamples xs).count.toNat = xs.length := by
    rw [count_ofSamples, BitVec.toNat_ofNat, Nat.mod_eq_of_lt small]
  have pos : 0 < xs.length := List.length_pos_iff.mpr nonempty
  have counted : (ofSamples xs).count ≠ 0 := count_ne_zero (by rw [Nat.mod_eq_of_lt small]; exact pos)
  have mean : ((ofSamples xs).sumNs / (ofSamples xs).count).toNat = (xs.map BitVec.toNat).sum / xs.length := by
    rw [BitVec.toNat_udiv, sumNs_ofSamples, BitVec.toNat_ofNat, Nat.mod_eq_of_lt total, count]
  obtain ⟨largest, all⟩ := maxNs_ofSamples nonempty
  obtain ⟨_, one, below⟩ := foldl_max (ofSamples xs).rows 1
  obtain ⟨mem, le⟩ := rmax_rows nonempty small
  have bar := fun row (mem : row ∈ (ofSamples xs).rows) =>
    bars_spec one (below row mem) (show 40 * (rmax (ofSamples xs).rows).toNat < 2 ^ 64 by omega)
  refine ⟨_, if_neg counted, count, largest, all, mean, ?_, ?_, ?_, ?_⟩
  · rw [List.map_zipWith, ← List.map_uncurry_zip_eq_zipWith]
    exact List.map_fst_zip (by rw [length_rows]; rfl)
  · intro r row get
    obtain ⟨label, c, _, at', rfl⟩ := List.getElem?_zipWith_eq_some.mp get
    refine ⟨?_, (bar c (List.mem_of_getElem? at')).1⟩
    have lt : r < 14 := length_rows (ofSamples xs) ▸ (List.getElem?_eq_some_iff.mp at').1
    rw [rows_ofSamples xs (Nat.le_of_lt_succ lt)] at at'
    cases at'
    exact toNat_row small r
  · rw [List.map_zipWith, ← List.map_uncurry_zip_eq_zipWith]
    show (((labels.zip (ofSamples xs).rows).map (BitVec.toNat ∘ Prod.snd))).sum = xs.length
    rw [← List.map_map, List.map_snd_zip (by rw [length_rows]; rfl), rows_eq, List.map_map, ← sum_rows xs]
    exact congrArg List.sum (List.map_congr_left fun r _ => toNat_row small r)
  · obtain ⟨r, at'⟩ := List.mem_iff_getElem?.mp mem
    have lt : r < labels.length := by
      rw [show labels.length = (ofSamples xs).rows.length from (length_rows _).symm]
      exact (List.getElem?_eq_some_iff.mp at').1
    have there : (List.zipWith (fun label row => Row.mk label row (bars (rmax (ofSamples xs).rows) row))
        labels (ofSamples xs).rows)[r]? = some _ :=
      List.getElem?_zipWith_eq_some.mpr ⟨_, _, List.getElem?_eq_getElem lt, at', rfl⟩
    refine ⟨_, List.mem_of_getElem? there, (bar _ mem).2 rfl, ?_⟩
    intro row' mem'
    obtain ⟨r', get'⟩ := List.mem_iff_getElem?.mp mem'
    obtain ⟨_, c, _, at'', rfl⟩ := List.getElem?_zipWith_eq_some.mp get'
    exact below c (List.mem_of_getElem? at'')

/-- Samples of 5 ns, 120 ns and 2 ms. -/
theorem print_exact_three :
    ∃ rep, (ofSamples [5, 120, 2000000]).print [] = some rep ∧ rep.mean = 666708 ∧
      (rep.rows.map fun row => row.count.toNat).sum = 3 := by
  have nonempty : [(5 : BitVec 64), 120, 2000000] ≠ [] := by decide
  obtain ⟨rep, printed, _, _, _, mean, _, _, sum, _⟩ :=
    print_exact nonempty (by decide) (by decide) []
  exact ⟨rep, printed, BitVec.eq_of_toNat_eq mean, sum⟩

end LatencyHistogram

end UxNet.Perf
