import Mathlib.Tactic
import Mathlib.Order.Interval.Finset.Nat

/-!
# Cumulative acknowledgements that come late

One direction of a window protocol, in unbounded numbers. A sender has sent the packets below `N` and
holds the acknowledgement `una`; its peer has received everything below `cum` and has itself sent `M`
packets, of which number `j` carries the acknowledgement `ack j` and was made when the sender had sent
`seen j` packets. The sender compares modulo a turn `T`: it sends when `(N - una) % T` is below the
window `W`. The peer keeps a packet for retransmission until `W` further ones are sent, and a copy is
taken only while the sender has sent at most `D` packets since that copy was put on the wire.

A copy may thus be fresh and carry an acknowledgement that is many turns old, which opens the window
where it should be closed. `Flow` is what survives: the packets sent through such an opening are counted,
by the residues they must have, and their number stays below `W * W`.
-/

namespace UxNet.Acks

/-- How far a sender can get ahead of what its peer has received. -/
def slack (W : ℕ) : ℕ := W * W + W

/-- Numbers that all lie, modulo a turn, in one of a few windows are few. -/
lemma length_le_of_cover {T W c n : ℕ} (v : ℕ → ℕ) (J : Finset ℕ) (short : n ≤ T)
    (cover : ∀ i, c ≤ i → i < c + n → ∃ j ∈ J, v j ≤ i ∧ (i - v j) % T < W) : n ≤ J.card * W := by
  choose! pick mem le lt using cover
  have count := Finset.card_le_card_of_injOn (s := Finset.Ico c (c + n)) (t := J ×ˢ Finset.range W)
    (fun i => (pick i, (i - v (pick i)) % T)) ?_ ?_
  · simpa using count
  · intro i hi
    obtain ⟨lo, hi⟩ := Finset.mem_Ico.mp hi
    simpa using ⟨mem i lo hi, lt i lo hi⟩
  · intro i hi i' hi' e
    obtain ⟨lo, hi⟩ := Finset.mem_Ico.mp hi
    obtain ⟨lo', hi'⟩ := Finset.mem_Ico.mp hi'
    obtain ⟨same, residue⟩ := Prod.mk.inj e
    have le₁ := le i lo hi
    have le₂ := le i' lo' hi'
    rw [← same] at residue le₂
    -- the two numbers are congruent and less than a turn apart
    have cong : (i - v (pick i)) ≡ (i' - v (pick i)) [MOD T] := residue
    have cong' := cong.add_right (v (pick i))
    rw [Nat.sub_add_cancel le₁, Nat.sub_add_cancel le₂] at cong'
    rcases Nat.le_total i i' with order | order
    · have := (Nat.modEq_iff_dvd' order).mp cong'
      have := Nat.eq_zero_of_dvd_of_lt this (by omega)
      omega
    · have := (Nat.modEq_iff_dvd' order).mp cong'.symm
      have := Nat.eq_zero_of_dvd_of_lt this (by omega)
      omega

/-- A copy that was put on the wire when the sender had sent `stamp` packets carries `a`: as an
acknowledgement of its own, or as that of packet `j` of the peer, first sent or sent again while `j` was
kept for retransmission. -/
def Carried (W : ℕ) (ack seen : ℕ → ℕ) (M cum a stamp : ℕ) : Prop :=
  a ≤ cum ∧ (stamp ≤ a + slack W ∨ ∃ j < M, a = ack j ∧ (j + W < M → stamp ≤ seen (j + W)))

/-- The invariant of one direction. -/
structure Flow (W T D : ℕ) (ack seen : ℕ → ℕ) (M N cum una : ℕ) : Prop where
  cum_le : cum ≤ N
  ack_le : ∀ j < M, ack j ≤ cum
  seen_le : ∀ j < M, seen j ≤ N
  seen_near : ∀ j < M, seen j ≤ ack j + slack W
  seen_mono : ∀ i j, i ≤ j → j < M → seen i ≤ seen j
  /-- `una` was taken from a fresh copy when `d` packets were sent, and at most a window since -/
  taken : ∃ d stamp, una ≤ d ∧ d ≤ N ∧ stamp ≤ N ∧ d ≤ stamp + D ∧
    Carried W ack seen M cum una stamp ∧ (N = d ∨ (d - una) % T + (N - d) ≤ W)
  /-- from `c` on, every packet was sent through an opening of an old acknowledgement -/
  opened : ∃ c ≤ cum + W, ∀ n, c ≤ n → n < N → ∃ j < M, ack j + T ≤ n ∧ (n - ack j) % T < W ∧
    (j + W < M → c ≤ seen (j + W) + D + W)

variable {W T D M N cum una : ℕ} {ack seen : ℕ → ℕ}

namespace Carried

variable {a stamp : ℕ}

/-- What a copy carries stays true as more is acknowledged. -/
lemma mono {cum' : ℕ} (h : Carried W ack seen M cum a stamp) (le : cum ≤ cum') :
    Carried W ack seen M cum' a stamp := ⟨h.1.trans le, h.2⟩

/-- The peer sends a packet. -/
lemma peerSend (h : Carried W ack seen M cum a stamp) (le : stamp ≤ N) (a' : ℕ) :
    Carried W (Function.update ack M a') (Function.update seen M N) (M + 1) cum a stamp := by
  refine ⟨h.1, h.2.imp_right ?_⟩
  rintro ⟨j, lt, rfl, keep⟩
  refine ⟨j, Nat.lt_succ_of_lt lt, (Function.update_of_ne (Nat.ne_of_lt lt) _ _).symm, ?_⟩
  intro lt'
  rcases Nat.lt_or_ge (j + W) M with old | new
  · rw [Function.update_of_ne (Nat.ne_of_lt old)]
    exact keep old
  · rw [show j + W = M by omega, Function.update_self]
    exact le

end Carried

namespace Flow

/-- The sender is never far ahead. -/
lemma near (h : Flow W T D ack seen M N cum una) (wide : slack W + slack W + D < T) :
    N ≤ cum + slack W := by
  obtain ⟨c, le, opened⟩ := h.opened
  by_contra far
  have far' : c + (W * W + 1) ≤ N := by
    unfold slack at far
    omega
  unfold slack at wide
  -- the packets of the peer whose acknowledgements opened the window, from the oldest one on
  have used : ∃ j, ∃ n, c ≤ n ∧ n < c + (W * W + 1) ∧ j < M ∧ ack j + T ≤ n ∧ (n - ack j) % T < W ∧
      (j + W < M → c ≤ seen (j + W) + D + W) := by
    obtain ⟨j, rest⟩ := opened c (Nat.le_refl c) (by omega)
    exact ⟨j, c, Nat.le_refl c, by omega, rest⟩
  classical
  obtain ⟨_, _, _, _, _, _, oldest⟩ := Nat.find_spec used
  have few : ∀ n, c ≤ n → n < c + (W * W + 1) →
      ∃ j ∈ Finset.Ico (Nat.find used) (Nat.find used + W), ack j ≤ n ∧ (n - ack j) % T < W := by
    intro n lo hi
    obtain ⟨j, lt, turn, win, fresh⟩ := opened n lo (by omega)
    have first : Nat.find used ≤ j := Nat.find_min' used ⟨n, lo, hi, lt, turn, win, fresh⟩
    refine ⟨j, Finset.mem_Ico.mpr ⟨first, ?_⟩, by omega, win⟩
    by_contra late
    have seen₁ := oldest (by omega)
    have seen₂ := h.seen_mono (Nat.find used + W) j (by omega) lt
    have seen₃ := h.seen_near j lt
    unfold slack at seen₃
    omega
  have bound := length_le_of_cover ack _ (by omega) few
  rw [Nat.card_Ico, Nat.add_sub_cancel_left] at bound
  omega

/-- The peer receives more. -/
lemma advance {cum' : ℕ} (h : Flow W T D ack seen M N cum una) (le : cum ≤ cum') (le' : cum' ≤ N) :
    Flow W T D ack seen M N cum' una where
  cum_le := le'
  ack_le := fun j lt => (h.ack_le j lt).trans le
  seen_le := h.seen_le
  seen_near := h.seen_near
  seen_mono := h.seen_mono
  taken := by
    obtain ⟨d, stamp, lo, hi, past, fresh, carried, sent⟩ := h.taken
    exact ⟨d, stamp, lo, hi, past, fresh, carried.mono le, sent⟩
  opened := by
    obtain ⟨c, hc, rest⟩ := h.opened
    exact ⟨c, by omega, rest⟩

/-- The sender takes the acknowledgement of a fresh copy, whatever it is. -/
lemma take {a stamp : ℕ} (h : Flow W T D ack seen M N cum una)
    (carried : Carried W ack seen M cum a stamp) (past : stamp ≤ N) (fresh : N ≤ stamp + D) :
    Flow W T D ack seen M N cum a where
  cum_le := h.cum_le
  ack_le := h.ack_le
  seen_le := h.seen_le
  seen_near := h.seen_near
  seen_mono := h.seen_mono
  taken := ⟨N, stamp, carried.1.trans h.cum_le, Nat.le_refl N, past, fresh, carried, .inl rfl⟩
  opened := h.opened

/-- The sender sends a packet. -/
lemma send (h : Flow W T D ack seen M N cum una) (wide : slack W + slack W + D < T)
    (room : (N - una) % T < W) : Flow W T D ack seen M (N + 1) cum una := by
  obtain ⟨d, stamp, lo, hi, past, fresh, carried, sent⟩ := h.taken
  have span : N - una = d - una + (N - d) := by omega
  have since : (d - una) % T + (N + 1 - d) ≤ W := by
    rcases sent with rfl | sent
    · omega
    · have small : (d - una) % T + (N - d) < T := by
        unfold slack at wide
        omega
      rw [span, ← Nat.mod_add_mod, Nat.mod_eq_of_lt small] at room
      omega
  refine ⟨by have := h.cum_le; omega, h.ack_le, fun j lt => (h.seen_le j lt).trans (Nat.le_succ N),
    h.seen_near, h.seen_mono, ⟨d, stamp, lo, by omega, by omega, fresh, carried, .inr since⟩,
    ?_⟩
  rcases Nat.lt_or_ge (N - una) T with same | old
  · -- the window is open in earnest
    rw [Nat.mod_eq_of_lt same] at room
    refine ⟨N + 1, by have := carried.1; omega, ?_⟩
    intro n ge lt
    omega
  · obtain ⟨c, hc, opened⟩ := h.opened
    refine ⟨c, hc, ?_⟩
    intro n ge lt
    rcases Nat.lt_or_ge n N with old' | new
    · exact opened n ge old'
    · obtain rfl : n = N := by omega
      unfold slack at wide
      rcases carried.2 with own | ⟨j, lt', rfl, keep⟩
      · unfold slack at own
        omega
      · refine ⟨j, lt', by omega, room, ?_⟩
        intro late
        have := keep late
        omega

/-- The peer sends a packet. -/
lemma peerSend (h : Flow W T D ack seen M N cum una) (wide : slack W + slack W + D < T) :
    Flow W T D (Function.update ack M cum) (Function.update seen M N) (M + 1) N cum una := by
  have old : ∀ {j} (f : ℕ → ℕ) (x : ℕ), j < M → Function.update f M x j = f j :=
    fun f x lt => Function.update_of_ne (Nat.ne_of_lt lt) x f
  have cases : ∀ {j}, j < M + 1 → j < M ∨ j = M := by
    intro j lt
    omega
  refine ⟨h.cum_le, ?_, ?_, ?_, ?_, ?_, ?_⟩
  · intro j lt
    rcases cases lt with lt | rfl
    · rw [old _ _ lt]
      exact h.ack_le j lt
    · rw [Function.update_self]
  · intro j lt
    rcases cases lt with lt | rfl
    · rw [old _ _ lt]
      exact h.seen_le j lt
    · rw [Function.update_self]
  · intro j lt
    rcases cases lt with lt | rfl
    · rw [old _ _ lt, old _ _ lt]
      exact h.seen_near j lt
    · rw [Function.update_self, Function.update_self]
      exact h.near wide
  · intro i j le lt
    rcases cases lt with lt | rfl
    · rw [old _ _ lt, old _ _ (Nat.lt_of_le_of_lt le lt)]
      exact h.seen_mono i j le lt
    · rw [Function.update_self]
      rcases Nat.eq_or_lt_of_le le with rfl | lt
      · rw [Function.update_self]
      · rw [old _ _ lt]
        exact h.seen_le i lt
  · obtain ⟨d, stamp, lo, hi, past, fresh, carried, sent⟩ := h.taken
    exact ⟨d, stamp, lo, hi, past, fresh, carried.peerSend past cum, sent⟩
  · obtain ⟨c, hc, opened⟩ := h.opened
    refine ⟨c, hc, ?_⟩
    intro n ge lt
    obtain ⟨j, ltM, turn, win, keep⟩ := opened n ge lt
    refine ⟨j, Nat.lt_succ_of_lt ltM, ?_⟩
    rw [old _ _ ltM]
    refine ⟨turn, win, ?_⟩
    intro late
    rcases cases late with late | eq
    · rw [old _ _ late]
      exact keep late
    · rw [eq, Function.update_self]
      omega

end Flow

end UxNet.Acks
