import UxNet.Lib.Rank

/-!
# Latency histogram

`LatencyHistogram` of `perf_counters.cpp`: 3701 buckets of 1 ns up to 1 µs, of 10 ns up to 10 µs, of 100 ns
up to 100 µs and of 1 µs up to 1 ms, and one for everything above. `percentile_ns` adds up the buckets
until more samples are counted than the rank it looks for, and returns the middle of the bucket it has
come to. The counters are of type `uint64_t`. What is floating point in the source enters as a function:
the conversion of cycles, and the rank as a share of the number of samples.
-/

namespace UxNet.Perf

/-- `kR0`. -/
abbrev kR0 : ℕ := 1000

/-- `kR1`. -/
abbrev kR1 : ℕ := 1900

/-- `kR2`. -/
abbrev kR2 : ℕ := 2800

/-- `kR3`. -/
abbrev kR3 : ℕ := 3700

/-- `kOverflow`. -/
abbrev kOverflow : ℕ := 3700

/-- `kNumBuckets`. -/
abbrev kNumBuckets : ℕ := 3701

/-- `ns_to_bucket`. -/
def nsToBucket (ns : ℕ) : ℕ :=
  if ns < 1000 then ns
  else if ns < 10000 then kR0 + (ns - 1000) / 10
  else if ns < 100000 then kR1 + (ns - 10000) / 100
  else if ns < 1000000 then kR2 + (ns - 100000) / 1000
  else kOverflow

/-- `bucket_lo_ns`. -/
def bucketLoNs (i : ℕ) : ℕ :=
  if i < kR0 then i
  else if i < kR1 then 1000 + (i - kR0) * 10
  else if i < kR2 then 10000 + (i - kR1) * 100
  else if i < kR3 then 100000 + (i - kR2) * 1000
  else 1000000

/-- `bucket_step_ns`. -/
def bucketStepNs (i : ℕ) : ℕ :=
  if i < kR0 then 1
  else if i < kR1 then 10
  else if i < kR2 then 100
  else if i < kR3 then 1000
  else 0

/-- The middle of a bucket. -/
def bucketMidNs (i : ℕ) : ℕ := bucketLoNs i + bucketStepNs i / 2

/-- `class LatencyHistogram`. -/
structure LatencyHistogram where
  buckets : List (BitVec 64)
  count : BitVec 64
  sumNs : BitVec 64
  maxNs : BitVec 64

/-- The loop of `percentile_ns`, with `bs` to go from bucket `i` on. -/
def scan (target : BitVec 64) (maxNs : BitVec 64) : ℕ → BitVec 64 → List (BitVec 64) → ℕ
  | _, _, [] => maxNs.toNat
  | i, cum, b :: bs =>
    if target + 1 ≤ cum + b then bucketMidNs i else scan target maxNs (i + 1) (cum + b) bs

namespace LatencyHistogram

/-- `LatencyHistogram::LatencyHistogram`. -/
def new : LatencyHistogram where
  buckets := List.replicate kNumBuckets 0
  count := 0
  sumNs := 0
  maxNs := 0

/-- `record`: a latency in nanoseconds is counted. -/
def add (h : LatencyHistogram) (ns : BitVec 64) : LatencyHistogram where
  buckets := h.buckets.modify (nsToBucket ns.toNat) (· + 1)
  count := h.count + 1
  sumNs := h.sumNs + ns
  maxNs := if h.maxNs < ns then ns else h.maxNs

/-- `LatencyHistogram::record`. -/
def record (cyclesToNs : BitVec 64 → BitVec 64) (h : LatencyHistogram) (startTsc endTsc : BitVec 64) :
    LatencyHistogram :=
  if endTsc ≤ startTsc then h else h.add (cyclesToNs (endTsc - startTsc))

/-- `LatencyHistogram::percentile_ns`; `rank` is `static_cast<uint64_t>(p * count_)`. -/
def percentileNs (rank : BitVec 64 → BitVec 64) (h : LatencyHistogram) : ℕ :=
  if h.count = 0 then 0 else scan (rank h.count) h.maxNs 0 0 h.buckets

/-- The histogram of the latencies recorded. -/
def ofSamples (xs : List (BitVec 64)) : LatencyHistogram := xs.foldl add new

/-- The latencies that a list of `record` calls records. -/
def recorded (cyclesToNs : BitVec 64 → BitVec 64) (calls : List (BitVec 64 × BitVec 64)) :
    List (BitVec 64) :=
  (calls.filter fun c => c.1 < c.2).map fun c => cyclesToNs (c.2 - c.1)

/-- A run of `record` leaves the histogram of what it records. -/
lemma foldl_record (cyclesToNs : BitVec 64 → BitVec 64) (calls : List (BitVec 64 × BitVec 64)) :
    calls.foldl (fun h c => h.record cyclesToNs c.1 c.2) new = ofSamples (recorded cyclesToNs calls) := by
  unfold ofSamples recorded
  generalize new = h
  induction calls generalizing h with
  | nil => rfl
  | cons c calls ih =>
    rw [List.foldl_cons, ih, record]
    by_cases le : c.2 ≤ c.1
    · rw [if_pos le, List.filter_cons_of_neg (by simpa using le)]
    · rw [if_neg le, List.filter_cons_of_pos (by simpa using le)]
      rfl

end LatencyHistogram

/-! ## Buckets -/

/-- Every latency has a bucket. -/
lemma nsToBucket_lt (ns : ℕ) : nsToBucket ns < kNumBuckets := by
  unfold nsToBucket kNumBuckets kOverflow kR0 kR1 kR2
  split_ifs
  all_goals omega

/-- A longer time is not in an earlier bucket. -/
lemma nsToBucket_mono : Monotone nsToBucket := by
  intro a b le
  unfold nsToBucket kOverflow kR0 kR1 kR2
  split_ifs
  all_goals omega

/-- A later bucket does not have a smaller middle. -/
lemma bucketMidNs_mono : Monotone bucketMidNs := by
  intro i j le
  unfold bucketMidNs bucketLoNs bucketStepNs kR0 kR1 kR2 kR3
  split_ifs
  all_goals omega

/-- The middle of a bucket is at most half a step from a latency in it, and the steps are at most the
hundredth part of the latencies they are for. -/
lemma bucketMidNs_bounds {x : ℕ} (small : x < 1000000) :
    200 * bucketMidNs (nsToBucket x) ≤ 201 * x ∧ 199 * x ≤ 200 * bucketMidNs (nsToBucket x) := by
  unfold bucketMidNs bucketLoNs bucketStepNs nsToBucket kR0 kR1 kR2 kR3
  split_ifs
  all_goals omega

/-- Below a millisecond the middle of the bucket is within half a percent. -/
lemma bucketMidNs_near {x : ℕ} (small : x < 1000000) :
    200 * |(bucketMidNs (nsToBucket x) : ℤ) - x| ≤ x := by
  obtain ⟨up, down⟩ := bucketMidNs_bounds small
  rcases abs_cases ((bucketMidNs (nsToBucket x) : ℤ) - x) with ⟨e, _⟩ | ⟨e, _⟩
  · rw [e]
    omega
  · rw [e]
    omega

/-- Below a microsecond it is exact. -/
lemma bucketMidNs_exact {x : ℕ} (small : x < 1000) : bucketMidNs (nsToBucket x) = x := by
  rw [nsToBucket, if_pos small, bucketMidNs, bucketLoNs, bucketStepNs, if_pos small, if_pos small]
  omega

/-! ## What the histogram holds -/

namespace LatencyHistogram

/-- The number of the samples in a bucket, as far as a counter of 64 bits can tell. -/
lemma buckets_ofSamples (xs : List (BitVec 64)) (i : ℕ) :
    (ofSamples xs).buckets[i]? = if i < kNumBuckets then
      some (BitVec.ofNat 64 (Rank.inClass nsToBucket (xs.map BitVec.toNat) i)) else none := by
  induction xs using List.reverseRecOn with
  | nil =>
    rw [ofSamples, List.foldl_nil, new, List.getElem?_replicate]
    rfl
  | append_singleton xs x ih =>
    have last : ofSamples (xs ++ [x]) = (ofSamples xs).add x := by
      rw [ofSamples, List.foldl_append]
      rfl
    rw [last, add, List.getElem?_modify, ih]
    unfold Rank.inClass
    rw [List.map_append, List.countP_append]
    by_cases lt : i < kNumBuckets
    · by_cases here : nsToBucket x.toNat = i
      · simp [lt, here, BitVec.ofNat_add]
      · simp [lt, here]
    · simp [lt]

/-- `count_` counts the samples. -/
lemma count_ofSamples (xs : List (BitVec 64)) : (ofSamples xs).count = BitVec.ofNat 64 xs.length := by
  induction xs using List.reverseRecOn with
  | nil => rfl
  | append_singleton xs x ih =>
    have last : (ofSamples (xs ++ [x])).count = (ofSamples xs).count + 1 := by
      rw [ofSamples, List.foldl_append]
      rfl
    rw [last, ih, List.length_append, BitVec.ofNat_add]
    rfl

/-- Each bucket counts the samples that fall into it. -/
lemma buckets_eq (xs : List (BitVec 64)) :
    (ofSamples xs).buckets = (List.range' 0 kNumBuckets).map fun i =>
      BitVec.ofNat 64 (Rank.inClass nsToBucket (xs.map BitVec.toNat) i) := by
  apply List.ext_getElem?
  intro i
  rw [buckets_ofSamples, List.getElem?_map]
  split
  · rename_i lt
    rw [List.getElem?_range' lt]
    simp
  · rename_i ge
    rw [List.getElem?_eq_none (by simpa using ge)]
    rfl

/-! ## The scan -/

/-- The scan stops at the bucket up to which more than `r` samples are counted, if the counters have not
wrapped. -/
lemma scan_eq {xs : List ℕ} {r k : ℕ} (fits : xs.length < 2 ^ 64) (short : Rank.below nsToBucket xs k ≤ r)
    (reach : r < Rank.below nsToBucket xs (k + 1)) (maxNs : BitVec 64) (n : ℕ) {i : ℕ} (le : i ≤ k)
    (lt : k < i + n) :
    scan (BitVec.ofNat 64 r) maxNs i (BitVec.ofNat 64 (Rank.below nsToBucket xs i))
      ((List.range' i n).map fun j => BitVec.ofNat 64 (Rank.inClass nsToBucket xs j)) = bucketMidNs k := by
  induction n generalizing i with
  | zero => omega
  | succ n ih =>
    have cum : BitVec.ofNat 64 (Rank.below nsToBucket xs i) + BitVec.ofNat 64 (Rank.inClass nsToBucket xs i)
        = BitVec.ofNat 64 (Rank.below nsToBucket xs (i + 1)) := by
      rw [← BitVec.ofNat_add, Rank.below_succ]
    have all : Rank.below nsToBucket xs (i + 1) ≤ xs.length := Rank.below_le_length
    have all' : Rank.below nsToBucket xs (k + 1) ≤ xs.length := Rank.below_le_length
    have test : BitVec.ofNat 64 r + 1 ≤ BitVec.ofNat 64 (Rank.below nsToBucket xs (i + 1))
        ↔ r < Rank.below nsToBucket xs (i + 1) := by
      have up : BitVec.ofNat 64 r + 1 = BitVec.ofNat 64 (r + 1) := by
        rw [BitVec.ofNat_add]
        rfl
      rw [up, BitVec.le_def, BitVec.toNat_ofNat, BitVec.toNat_ofNat, Nat.mod_eq_of_lt (by omega),
        Nat.mod_eq_of_lt (by omega)]
      exact Iff.rfl
    rw [List.range'_succ, List.map_cons, scan, cum]
    rcases Nat.eq_or_lt_of_le le with rfl | before
    · rw [if_pos (test.mpr reach)]
    · have none : Rank.below nsToBucket xs (i + 1) ≤ Rank.below nsToBucket xs k :=
        Rank.below_mono (by omega)
      rw [if_neg (fun h => by have := test.mp h; omega)]
      exact ih (by omega) (by omega)

/-- The scan of the buckets of some samples comes to the bucket of the sample of the given rank. -/
lemma scan_nth {xs : List ℕ} {r x : ℕ} (fits : xs.length < 2 ^ 64) (at' : Rank.nth xs r = some x)
    (maxNs : BitVec 64) :
    scan (BitVec.ofNat 64 r) maxNs 0 0 ((List.range' 0 kNumBuckets).map fun i =>
      BitVec.ofNat 64 (Rank.inClass nsToBucket xs i)) = bucketMidNs (nsToBucket x) := by
  have short : Rank.below nsToBucket xs (nsToBucket x) ≤ r := by
    by_contra lt
    exact lt_irrefl _ ((Rank.lt_below_iff nsToBucket_mono at').mp (by omega))
  have reach : r < Rank.below nsToBucket xs (nsToBucket x + 1) :=
    (Rank.lt_below_iff nsToBucket_mono at').mpr (Nat.lt_succ_self _)
  have start := scan_eq fits short reach maxNs kNumBuckets (Nat.zero_le _)
    (by rw [Nat.zero_add]; exact nsToBucket_lt x)
  rw [← start, Rank.below_zero]
  rfl

/-- The count is not zero unless it has come round. -/
lemma count_ne_zero {xs : List (BitVec 64)} (pos : 0 < xs.length % 2 ^ 64) : (ofSamples xs).count ≠ 0 := by
  rw [count_ofSamples]
  intro zero
  have value := congrArg BitVec.toNat zero
  rw [BitVec.toNat_ofNat] at value
  exact absurd value (Nat.ne_of_gt pos)

/-- `percentile_ns` returns the middle of the bucket of the sample of the given rank. -/
lemma percentileNs_eq {xs : List (BitVec 64)} {r x : ℕ} (fits : xs.length < 2 ^ 64)
    (at' : Rank.nth (xs.map BitVec.toNat) r = some x) :
    (ofSamples xs).percentileNs (fun _ => BitVec.ofNat 64 r) = bucketMidNs (nsToBucket x) := by
  have lt := Rank.lt_length_of_nth at'
  rw [List.length_map] at lt
  have pos : 0 < xs.length % 2 ^ 64 := by
    rw [Nat.mod_eq_of_lt fits]
    omega
  rw [percentileNs, if_neg (count_ne_zero pos), buckets_eq]
  exact scan_nth (by rw [List.length_map]; exact fits) at' _

/-- For every list of fewer than `2 ^ 64` recorded latencies: the percentile of a rank is within half a
percent of the sample of that rank if that is below a millisecond, and exact if it is below a microsecond;
it goes up with the rank; and every latency has a bucket in the array. -/
theorem percentile_accurate (xs : List (BitVec 64)) (fits : xs.length < 2 ^ 64) :
    (∀ r x, Rank.nth (xs.map BitVec.toNat) r = some x → x < 1000000 →
      200 * |((ofSamples xs).percentileNs (fun _ => BitVec.ofNat 64 r) : ℤ) - x| ≤ x ∧
      (x < 1000 → (ofSamples xs).percentileNs (fun _ => BitVec.ofNat 64 r) = x)) ∧
    (∀ r r', r ≤ r' → r' < xs.length →
      (ofSamples xs).percentileNs (fun _ => BitVec.ofNat 64 r)
        ≤ (ofSamples xs).percentileNs fun _ => BitVec.ofNat 64 r') ∧
    ∀ ns : BitVec 64, nsToBucket ns.toNat < (ofSamples xs).buckets.length := by
  refine ⟨?_, ?_, ?_⟩
  · intro r x at' small
    rw [percentileNs_eq fits at']
    exact ⟨bucketMidNs_near small, bucketMidNs_exact⟩
  · intro r r' le lt
    obtain ⟨x, at'⟩ := Rank.nth_isSome (xs.map BitVec.toNat) (r := r) (by rw [List.length_map]; omega)
    obtain ⟨x', at''⟩ := Rank.nth_isSome (xs.map BitVec.toNat) (r := r') (by rw [List.length_map]; omega)
    rw [percentileNs_eq fits at', percentileNs_eq fits at'']
    exact bucketMidNs_mono (nsToBucket_mono (Rank.nth_mono le at' at''))
  · intro ns
    rw [buckets_eq, List.length_map, List.length_range']
    exact nsToBucket_lt ns.toNat

/-- Of three samples the last one is read off within half a percent. -/
theorem percentile_accurate_three :
    [5, 7, 1234].length < 2 ^ 64 ∧
    200 * |((ofSamples [5, 7, 1234]).percentileNs (fun _ => BitVec.ofNat 64 2) : ℤ) - (1234 : ℕ)|
      ≤ (1234 : ℕ) := by
  have fits : [(5 : BitVec 64), 7, 1234].length < 2 ^ 64 := by decide
  have third : Rank.nth ([(5 : BitVec 64), 7, 1234].map BitVec.toNat) 2 = some 1234 :=
    Rank.nth_of_sorted (by decide) rfl
  exact ⟨by decide, ((percentile_accurate [5, 7, 1234] fits).1 2 1234 third (by decide)).1⟩

/-- Once `2 ^ 64` samples are in a bucket its counter is back at zero. -/
lemma buckets_wrapped {n : ℕ} (turn : n = 2 ^ 64) (x y : BitVec 64) :
    (ofSamples (List.replicate n x ++ [y])).buckets = (List.range' 0 kNumBuckets).map fun i =>
      BitVec.ofNat 64 (Rank.inClass nsToBucket [y.toNat] i) := by
  have zero : BitVec.ofNat 64 (2 ^ 64) = 0#64 := by decide
  rw [buckets_eq]
  apply List.map_congr_left
  intro i _
  unfold Rank.inClass
  rw [List.map_append, List.map_replicate, List.countP_append, List.countP_replicate]
  split
  · rw [turn, BitVec.ofNat_add, zero]
    exact BitVec.zero_add _
  · rw [Nat.zero_add]
    rfl

/-- After `2 ^ 64` samples of 5 ns and one of 7 ns the smallest sample is reported as 7 ns. -/
theorem smallest_sample_lost :
    Rank.nth ((List.replicate (2 ^ 64) (5 : BitVec 64) ++ [7]).map BitVec.toNat) 0 = some 5 ∧
    ¬ 200 * |((ofSamples (List.replicate (2 ^ 64) 5 ++ [7])).percentileNs
      (fun _ => BitVec.ofNat 64 0) : ℤ) - (5 : ℕ)| ≤ (5 : ℕ) := by
  generalize turn : 2 ^ 64 = n
  have smallest : Rank.nth ((List.replicate n (5 : BitVec 64) ++ [7]).map BitVec.toNat) 0 = some 5 := by
    rw [List.map_append, List.map_replicate]
    apply Rank.nth_of_sorted
    · refine List.pairwise_append.mpr ⟨List.pairwise_replicate.mpr (.inr le_rfl), by simp, ?_⟩
      intro a mem b mem'
      rw [List.eq_of_mem_replicate mem, List.mem_singleton.mp mem']
      decide
    · rw [List.getElem?_append_left (by rw [List.length_replicate]; omega), List.getElem?_replicate,
        if_pos (by omega)]
      rfl
  have counted : 0 < (List.replicate n (5 : BitVec 64) ++ [7]).length % 2 ^ 64 := by
    rw [List.length_append, List.length_replicate, ← turn]
    decide
  have reported : (ofSamples (List.replicate n 5 ++ [7])).percentileNs (fun _ => BitVec.ofNat 64 0) = 7 := by
    rw [percentileNs, if_neg (count_ne_zero counted), buckets_wrapped turn.symm]
    have only : Rank.nth [(7 : ℕ)] 0 = some 7 := Rank.nth_of_sorted (by decide) rfl
    exact (scan_nth (by decide) only _).trans (bucketMidNs_exact (by decide))
  refine ⟨smallest, ?_⟩
  rw [reported]
  decide

end LatencyHistogram

end UxNet.Perf
