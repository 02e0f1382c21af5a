import UxNet.Lib.Serial
import UxNet.Lib.Table
import UxNet.TcpLite.Queue

/-!
# The queue as a map

`UnackedQueue` is a table of 256 slots with the place of a packet given by its sequence number. As long as
the packets in it lie within one window of consecutive sequence numbers, wherever that is and also across
the wrap, it is a map from sequence numbers to buffers and times (`Entries`): `Mapped` runs the two side by
side, and `Holds` says what the slots have to do with the map.
-/

namespace UxNet.TcpLite

/-- Packets that are not acknowledged: the buffer of each, and when it was last sent. -/
abbrev Entries := BitVec 32 → Option (ℕ × BitVec 64)

/-- All of the map is in the window of 256 numbers that starts at `low`. -/
def FitsAt (low : BitVec 32) (m : Entries) : Prop := ∀ seq, m seq ≠ none → (seq - low).toNat < 256

/-- At most `2^31 - 256` before the window that starts at `low`, or as much behind it. -/
def Near (low upToSeq : BitVec 32) : Prop := -(2 ^ 31 - 256) ≤ (upToSeq - low).toInt

/-- A number of the window that starts at `low` is serially before another one. -/
def Before (low upToSeq seq : BitVec 32) : Prop := ((seq - low).toNat : ℤ) < (upToSeq - low).toInt

instance (low upToSeq seq : BitVec 32) : Decidable (Before low upToSeq seq) :=
  inferInstanceAs (Decidable (_ < _))

namespace Entries

/-- A packet is sent. -/
def put (seq : BitVec 32) (buf : ℕ) (sentTsc : BitVec 64) (m : Entries) : Entries :=
  Function.update m seq (some (buf, sentTsc))

/-- An ACK takes out what is before it. -/
def ack (low upToSeq : BitVec 32) (m : Entries) : Entries :=
  fun seq => if Before low upToSeq seq then none else m seq

/-- A packet is sent again. -/
def touch (seq : BitVec 32) (nowTsc : BitVec 64) (m : Entries) : Entries :=
  Function.update m seq ((m seq).map fun e => (e.1, nowTsc))

/-- What an ACK takes out of the map. -/
def Acked (low upToSeq : BitVec 32) (m : Entries) (seq : BitVec 32) : Prop :=
  m seq ≠ none ∧ Before low upToSeq seq

end Entries

/-- An empty map fits any window. -/
lemma FitsAt.none (low : BitVec 32) : FitsAt low fun _ => none :=
  fun _ ne => absurd rfl ne

/-- A packet of the window fits it. -/
lemma FitsAt.put {low seq : BitVec 32} {m : Entries} (fits : FitsAt low m)
    (inside : (seq - low).toNat < 256) (buf : ℕ) (sentTsc : BitVec 64) :
    FitsAt low (Entries.put seq buf sentTsc m) := by
  intro seq' ne
  by_cases same : seq' = seq
  · rw [same]
    exact inside
  · rw [Entries.put, Function.update_of_ne same] at ne
    exact fits seq' ne

/-- A queue after some calls, and the map it stands for. The pool is any at each call; the window is any
that the map fits in. -/
inductive Mapped : UnackedQueue → Entries → Prop where
  | new :
    Mapped .new fun _ => none
  | markSent {q m} (seq : BitVec 32) (buf : ℕ) (sentTsc : BitVec 64) (pool : BufferPool)
      (low : BitVec 32) :
    Mapped q m →
    FitsAt low (Entries.put seq buf sentTsc m) →
    Mapped (q.markSent seq buf sentTsc pool).1 (Entries.put seq buf sentTsc m)
  | markAcked {q m} (upToSeq : BitVec 32) (pool : BufferPool) (low : BitVec 32) :
    Mapped q m →
    FitsAt low m →
    Near low upToSeq →
    Mapped (q.markAcked upToSeq pool).2.1 (Entries.ack low upToSeq m)
  | touch {q m} (seq : BitVec 32) (nowTsc : BitVec 64) :
    Mapped q m →
    Mapped (q.touch seq nowTsc) (Entries.touch seq nowTsc m)
  | releaseAll {q m} (pool : BufferPool) :
    Mapped q m →
    Mapped (q.releaseAll pool).1 fun _ => none

/-! ### Comparison of sequence numbers -/

/-- A distance within the window is not negative. -/
lemma toInt_of_window {x : BitVec 32} (lt : x.toNat < 256) : x.toInt = x.toNat :=
  BitVec.toInt_eq_toNat_of_lt (by omega)

/-- Two numbers of one window with the same slot are the same. -/
lemma eq_of_slotIdx {low x y : BitVec 32} (hx : (x - low).toNat < 256) (hy : (y - low).toNat < 256)
    (slot : slotIdx x = slotIdx y) : x = y := by
  have val := congrArg Fin.val slot
  rw [slotIdx_val, slotIdx_val] at val
  bv_omega

/-- The comparison that `mark_acked` makes to tell the acknowledged packets. -/
lemma toInt_neg_iff_before {low upToSeq seq : BitVec 32} (inside : (seq - low).toNat < 256)
    (near : Near low upToSeq) : (seq - upToSeq).toInt < 0 ↔ Before low upToSeq seq := by
  have pos := toInt_of_window inside
  have hi := BitVec.toInt_lt (x := upToSeq - low)
  unfold Near at near
  rw [Serial.toInt_sub_eq (z := low) (by omega) (by omega), pos, Before]
  omega

/-- The comparison that `mark_acked` makes to tell the newest packet. -/
lemma toInt_pos_iff_later {low x y : BitVec 32} (hx : (x - low).toNat < 256)
    (hy : (y - low).toNat < 256) : 0 < (x - y).toInt ↔ (y - low).toNat < (x - low).toNat := by
  have posx := toInt_of_window hx
  have posy := toInt_of_window hy
  rw [Serial.toInt_sub_eq (z := low) (by omega) (by omega), posx, posy]
  omega

/-! ### The loop of `mark_acked` -/

namespace UnackedQueue

/-- The newest packet found so far. -/
def AckScan.newest (a : AckScan) : Option (BitVec 32 × BitVec 64) :=
  if a.any then some (a.newestSeq, a.newestTsc) else none

/-- The newest packet, with one more slot. -/
def later (e : Option (BitVec 32 × BitVec 64)) (s : Slot) : Option (BitVec 32 × BitVec 64) :=
  match e with
  | none => some (s.seq, s.sentTsc)
  | some (seq, tsc) => if 0 < (s.seq - seq).toInt then some (s.seq, s.sentTsc) else some (seq, tsc)

/-- A slot counts if it is newer than those before. -/
lemma AckScan.note_newest (a : AckScan) (s : Slot) : (a.note s).newest = later a.newest s := by
  cases any : a.any with
  | false =>
    have first : a.note s = { a with newestTsc := s.sentTsc, newestSeq := s.seq, any := true } :=
      if_pos (by rw [any]; rfl)
    have none : a.newest = none := by simp [newest, any]
    rw [first, none]
    rfl
  | true =>
    have some : a.newest = some (a.newestSeq, a.newestTsc) := by simp [newest, any]
    rw [some, later]
    by_cases after : 0 < (s.seq - a.newestSeq).toInt
    · have newer : a.note s = { a with newestTsc := s.sentTsc, newestSeq := s.seq, any := true } :=
        if_pos (by rw [decide_eq_true after, Bool.or_true])
      rw [newer, if_pos after]
      rfl
    · have same : a.note s = a := if_neg (by rw [any, decide_eq_false after]; decide)
      rw [same, some, if_neg after]

/-- Noting a slot releases nothing. -/
lemma AckScan.note_pool (a : AckScan) (s : Slot) : (a.note s).pool = a.pool := by
  unfold AckScan.note
  split
  · rfl
  · rfl

/-- The slots that `mark_acked` clears. -/
def hit (upToSeq : BitVec 32) (s : Slot) : Bool := s.occupied && (s.seq - upToSeq).toInt < 0

/-- The loop releases the buffers of the slots that it clears. -/
lemma ackSlot_pool (upToSeq : BitVec 32) (a : AckScan) (k : Fin window) :
    (ackSlot upToSeq a k).pool
      = if hit upToSeq (a.queue.slots k) then releaseBuf .acked (a.queue.slots k).buf a.pool
        else a.pool := by
  unfold ackSlot hit
  dsimp only
  split
  · rw [AckScan.drop, AckScan.note_pool, AckScan.note_queue]
  · rfl

/-- The loop keeps the newest of the slots that it clears. -/
lemma ackSlot_newest (upToSeq : BitVec 32) (a : AckScan) (k : Fin window) :
    (ackSlot upToSeq a k).newest
      = if hit upToSeq (a.queue.slots k) then later a.newest (a.queue.slots k) else a.newest := by
  unfold ackSlot hit
  dsimp only
  split
  · exact a.note_newest _
  · rfl

/-- `mark_acked` releases the buffers of the slots that it clears, in the order of the table. -/
lemma markAcked_pool (upToSeq : BitVec 32) (q : UnackedQueue) (pool : BufferPool) :
    (markAcked upToSeq q pool).2.2
      = ((List.finRange window).map q.slots).foldl
          (fun p s => if hit upToSeq s then releaseBuf .acked s.buf p else p) pool := by
  unfold markAcked
  dsimp only
  rw [Loop.foldl_seen (fun a : AckScan => a.queue.slots) (ackSlot_slots upToSeq) AckScan.pool
    (fun p s => if hit upToSeq s then releaseBuf .acked s.buf p else p) (ackSlot_pool upToSeq) (List.nodup_finRange window)]

/-- `mark_acked` returns the time of the newest slot that it clears. -/
lemma markAcked_newest (upToSeq : BitVec 32) (q : UnackedQueue) (pool : BufferPool) :
    (markAcked upToSeq q pool).1
      = (((((List.finRange window).filter fun k => hit upToSeq (q.slots k)).map q.slots).foldl later
          none).map Prod.snd).getD 0 := by
  have result : ∀ a : AckScan, (if a.any then a.newestTsc else 0) = (a.newest.map Prod.snd).getD 0 := by
    intro a
    unfold AckScan.newest
    split
    · rfl
    · rfl
  unfold markAcked
  dsimp only
  rw [result, Loop.foldl_seen (fun a : AckScan => a.queue.slots) (ackSlot_slots upToSeq) AckScan.newest
    (fun e s => if hit upToSeq s then later e s else e) (ackSlot_newest upToSeq)
    (List.nodup_finRange window), List.foldl_map, List.foldl_map, List.foldl_filter]
  rfl

/-- Within one window the loop finds the serially greatest packet, whatever the order of the slots. -/
lemma foldl_later {low : BitVec 32} {ss : List Slot} (inside : ∀ s ∈ ss, (s.seq - low).toNat < 256) :
    ss = [] ∧ ss.foldl later none = none ∨
      ∃ s ∈ ss, ss.foldl later none = some (s.seq, s.sentTsc) ∧
        ∀ s' ∈ ss, (s'.seq - low).toNat ≤ (s.seq - low).toNat := by
  induction ss using List.reverseRecOn with
  | nil => exact .inl ⟨rfl, rfl⟩
  | append_singleton ss s ih =>
    right
    have last : s ∈ ss ++ [s] := by simp
    rw [List.foldl_append, List.foldl_cons, List.foldl_nil]
    rcases ih fun s' mem => inside s' (List.mem_append_left _ mem) with
      ⟨rfl, none⟩ | ⟨newest, mem, some, greatest⟩
    · rw [none]
      refine ⟨s, last, rfl, ?_⟩
      intro s' mem
      rw [List.nil_append, List.mem_singleton] at mem
      rw [mem]
    · rw [some]
      have old : newest ∈ ss ++ [s] := List.mem_append_left _ mem
      have later_iff := toInt_pos_iff_later (inside s last) (inside newest old)
      by_cases after : 0 < (s.seq - newest.seq).toInt
      · refine ⟨s, last, if_pos after, ?_⟩
        intro s' mem'
        rcases List.mem_append.mp mem' with before | same
        · exact (greatest s' before).trans (later_iff.mp after).le
        · rw [List.mem_singleton.mp same]
      · refine ⟨newest, old, if_neg after, ?_⟩
        intro s' mem'
        rcases List.mem_append.mp mem' with before | same
        · exact greatest s' before
        · rw [List.mem_singleton.mp same]
          exact Nat.le_of_not_lt fun lt => after (later_iff.mpr lt)

end UnackedQueue

/-! ### Slots and entries -/

/-- The entry in a slot. -/
def Slot.entry (s : Slot) : Option (BitVec 32 × ℕ × BitVec 64) :=
  if s.occupied then s.buf.map fun b => (s.seq, b, s.sentTsc) else none

/-- The entry of a slot. -/
lemma Slot.entry_eq_some_iff {s : Slot} {seq : BitVec 32} {b : ℕ} {t : BitVec 64} :
    s.entry = some (seq, b, t)
      ↔ s.occupied = true ∧ s.buf = some b ∧ s.seq = seq ∧ s.sentTsc = t := by
  unfold Slot.entry
  split
  · rename_i occ
    simp [occ]
  · rename_i free
    simp [free]

/-- The slots of a queue as the cells of a table. -/
def UnackedQueue.cells (q : UnackedQueue) (k : Fin window) : Option (BitVec 32 × ℕ × BitVec 64) :=
  (q.slots k).entry

/-- Writing a slot writes its entry. -/
lemma UnackedQueue.cells_set (q : UnackedQueue) (k : Fin window) (s : Slot) :
    (q.set k s).cells = Function.update q.cells k s.entry := by
  funext k'
  by_cases here : k' = k
  · subst here
    rw [cells, set_slots_self, Function.update_self]
  · rw [cells, set_slots_ne _ _ here, Function.update_of_ne here]
    rfl

/-- What is in the slots under each sequence number. -/
def UnackedQueue.entries (q : UnackedQueue) : Entries := Table.lookup slotIdx q.cells

/-- The slots hold the map: every packet is in its own slot, with its buffer. -/
structure Holds (q : UnackedQueue) (m : Entries) : Prop where
  map : Table.lookup slotIdx q.cells = m
  aligned : Table.Aligned slotIdx q.cells
  full : ∀ k, (q.slots k).occupied = true → (q.slots k).buf ≠ none

namespace Holds

variable {q : UnackedQueue} {m : Entries}

/-- A new queue holds nothing. -/
lemma new : Holds .new fun _ => none where
  map := rfl
  aligned := by
    intro k e cell
    cases cell
  full := by
    intro k occ
    cases occ

/-- What an occupied slot holds. -/
lemma slot (h : Holds q m) {k : Fin window} (occ : (q.slots k).occupied = true) :
    slotIdx (q.slots k).seq = k ∧
      ∃ b, (q.slots k).buf = some b ∧ m (q.slots k).seq = some (b, (q.slots k).sentTsc) := by
  obtain ⟨b, buf⟩ := Option.ne_none_iff_exists'.mp (h.full k occ)
  have cell : q.cells k = some ((q.slots k).seq, b, (q.slots k).sentTsc) :=
    Slot.entry_eq_some_iff.mpr ⟨occ, buf, rfl, rfl⟩
  refine ⟨h.aligned k _ cell, b, buf, ?_⟩
  rw [← h.map]
  exact Table.lookup_of_cell h.aligned cell

/-- Where an entry of the map is. -/
lemma eq_some_iff (h : Holds q m) {seq : BitVec 32} {b : ℕ} {t : BitVec 64} :
    m seq = some (b, t) ↔ (q.slots (slotIdx seq)).occupied = true ∧
      (q.slots (slotIdx seq)).buf = some b ∧ (q.slots (slotIdx seq)).seq = seq ∧
      (q.slots (slotIdx seq)).sentTsc = t := by
  rw [← h.map, Table.lookup_eq_some_iff]
  exact Slot.entry_eq_some_iff

/-- A number that is in the map is in its slot. -/
lemma found (h : Holds q m) {seq : BitVec 32} (ne : m seq ≠ none) :
    (q.slots (slotIdx seq)).occupied = true ∧ (q.slots (slotIdx seq)).seq = seq ∧
      ∃ b, (q.slots (slotIdx seq)).buf = some b ∧ m seq = some (b, (q.slots (slotIdx seq)).sentTsc) := by
  obtain ⟨⟨b, t⟩, entry⟩ := Option.ne_none_iff_exists'.mp ne
  obtain ⟨occ, buf, here, time⟩ := h.eq_some_iff.mp entry
  exact ⟨occ, here, b, buf, by rw [time, entry]⟩

/-- A number is occupied exactly if the map has it. -/
lemma occupied_iff (h : Holds q m) (seq : BitVec 32) : q.occupied seq = true ↔ m seq ≠ none := by
  rw [UnackedQueue.occupied, Bool.and_eq_true, beq_iff_eq]
  constructor
  · rintro ⟨occ, here⟩
    obtain ⟨_, b, _, entry⟩ := h.slot occ
    rw [here] at entry
    rw [entry]
    exact Option.some_ne_none _
  · intro ne
    obtain ⟨occ, here, _⟩ := h.found ne
    exact ⟨occ, here⟩

/-- A number that is not occupied is not in the map. -/
lemma eq_none (h : Holds q m) {seq : BitVec 32} (free : ¬ q.occupied seq = true) : m seq = none := by
  by_contra ne
  exact free ((h.occupied_iff seq).mpr ne)

/-- The buffer of a number is that of the map. -/
lemma bufferFor_eq (h : Holds q m) (seq : BitVec 32) : q.bufferFor seq = (m seq).map Prod.fst := by
  unfold UnackedQueue.bufferFor
  split
  · rename_i occ
    obtain ⟨_, _, b, buf, entry⟩ := h.found ((h.occupied_iff seq).mp occ)
    rw [buf, entry]
    rfl
  · rename_i free
    rw [h.eq_none free]
    rfl

/-! ### One call -/

/-- `mark_sent` puts a packet into the map. -/
lemma markSent (h : Holds q m) {seq low : BitVec 32} {buf : ℕ} {sentTsc : BitVec 64}
    (fits : FitsAt low (Entries.put seq buf sentTsc m)) (pool : BufferPool) :
    Holds (q.markSent seq buf sentTsc pool).1 (Entries.put seq buf sentTsc m) := by
  have cells : (q.markSent seq buf sentTsc pool).1.cells
      = Function.update q.cells (slotIdx seq) (some (seq, buf, sentTsc)) :=
    UnackedQueue.cells_set q (slotIdx seq) _
  -- no other number of the window has this slot
  have alone : ∀ e, q.cells (slotIdx seq) = some e → e.1 = seq := by
    rintro ⟨seq', e⟩ cell
    by_contra ne
    have there : m seq' = some e := by
      rw [← h.map]
      exact Table.lookup_of_cell h.aligned cell
    apply ne
    refine eq_of_slotIdx (fits seq' ?_) (fits seq ?_) (h.aligned _ _ cell)
    · rw [Entries.put, Function.update_of_ne ne, there]
      exact Option.some_ne_none _
    · rw [Entries.put, Function.update_self]
      exact Option.some_ne_none _
  refine ⟨?_, ?_, ?_⟩
  · rw [cells, Table.lookup_set alone, h.map, Entries.put]
  · rw [cells]
    exact h.aligned.set seq (buf, sentTsc)
  · intro k occ
    by_cases here : k = slotIdx seq
    · subst here
      simp [UnackedQueue.markSent]
    · rw [UnackedQueue.markSent, UnackedQueue.set_slots_ne _ _ here] at occ ⊢
      exact h.full k occ

/-- `touch` sends a packet again. -/
lemma touch (h : Holds q m) (seq : BitVec 32) (nowTsc : BitVec 64) :
    Holds (q.touch seq nowTsc) (Entries.touch seq nowTsc m) := by
  unfold UnackedQueue.touch Entries.touch
  split
  · rename_i occ
    obtain ⟨occ', here, b, buf, entry⟩ := h.found ((h.occupied_iff seq).mp occ)
    have cells : (q.set (slotIdx seq) { q.slots (slotIdx seq) with sentTsc := nowTsc }).cells
        = Function.update q.cells (slotIdx seq) (some (seq, b, nowTsc)) := by
      rw [UnackedQueue.cells_set]
      congr 1
      exact Slot.entry_eq_some_iff.mpr ⟨occ', buf, here, rfl⟩
    have alone : ∀ e, q.cells (slotIdx seq) = some e → e.1 = seq := by
      rintro ⟨seq', b', t'⟩ cell
      exact (Slot.entry_eq_some_iff.mp cell).2.2.1.symm.trans here
    refine ⟨?_, ?_, ?_⟩
    · rw [cells, Table.lookup_set alone, h.map, entry]
      rfl
    · rw [cells]
      exact h.aligned.set seq (b, nowTsc)
    · intro k
      by_cases own : k = slotIdx seq
      · subst own
        rw [UnackedQueue.set_slots_self]
        exact h.full _
      · rw [UnackedQueue.set_slots_ne _ _ own]
        exact h.full k
  · rename_i free
    have none := h.eq_none free
    rw [none, Option.map_none, ← none, Function.update_eq_self]
    exact h

/-- `release_all` empties the map. -/
lemma releaseAll (q : UnackedQueue) (pool : BufferPool) :
    Holds (q.releaseAll pool).1 fun _ => none := by
  have cells : (q.releaseAll pool).1.cells = fun _ => none := by
    funext k
    rw [UnackedQueue.cells, UnackedQueue.releaseAll_slots]
    rfl
  refine ⟨?_, ?_, ?_⟩
  · rw [cells]
    rfl
  · rw [cells]
    intro k e cell
    cases cell
  · intro k occ
    rw [UnackedQueue.releaseAll_slots] at occ
    cases occ

/-- The slots that an ACK clears are those of the entries before it. -/
lemma hit_iff (h : Holds q m) {low upToSeq : BitVec 32} (fits : FitsAt low m)
    (near : Near low upToSeq) {k : Fin window} (occ : (q.slots k).occupied = true) :
    ((q.slots k).seq - upToSeq).toInt < 0 ↔ Before low upToSeq (q.slots k).seq := by
  obtain ⟨_, b, _, entry⟩ := h.slot occ
  apply toInt_neg_iff_before (fits _ ?_) near
  rw [entry]
  exact Option.some_ne_none _

/-- `mark_acked` takes out what is before the ACK. -/
lemma markAcked (h : Holds q m) {low upToSeq : BitVec 32} (fits : FitsAt low m)
    (near : Near low upToSeq) (pool : BufferPool) :
    Holds (q.markAcked upToSeq pool).2.1 (Entries.ack low upToSeq m) := by
  have cells : (q.markAcked upToSeq pool).2.1.cells
      = fun k => (q.cells k).filter fun e => !decide (Before low upToSeq e.1) := by
    funext k
    rw [UnackedQueue.cells, UnackedQueue.markAcked_slots, UnackedQueue.ackedSlot]
    cases occ : (q.slots k).occupied with
    | false => simp [UnackedQueue.cells, Slot.entry, occ]
    | true =>
      obtain ⟨b, buf⟩ := Option.ne_none_iff_exists'.mp (h.full k occ)
      have hit := h.hit_iff fits near occ
      have cell : q.cells k = some ((q.slots k).seq, b, (q.slots k).sentTsc) :=
        Slot.entry_eq_some_iff.mpr ⟨occ, buf, rfl, rfl⟩
      rw [cell, Bool.true_and, Option.filter_some]
      by_cases before : Before low upToSeq (q.slots k).seq
      · rw [if_pos (decide_eq_true (hit.mpr before)), if_neg (by simp [before])]
        rfl
      · rw [if_neg fun neg => before (hit.mp (of_decide_eq_true neg)), if_pos (by simp [before])]
        exact cell
  refine ⟨?_, ?_, ?_⟩
  · rw [cells, Table.lookup_filter fun seq => !decide (Before low upToSeq seq), h.map]
    funext seq
    by_cases before : Before low upToSeq seq
    · simp [Entries.ack, before]
    · simp [Entries.ack, before]
  · rw [cells]
    exact h.aligned.filter _
  · intro k occ
    rw [UnackedQueue.markAcked_slots, UnackedQueue.ackedSlot] at occ ⊢
    split at occ
    · cases occ
    · rename_i kept
      rw [if_neg kept]
      exact h.full k occ

/-! ### Loops over the slots

`check_timeouts` and `mark_acked` visit the slots in the order of the table, which is not that of the
sequence numbers. -/

/-- The sequence numbers of the packets with a property, in the order of the slots. -/
def picked (q : UnackedQueue) (p : Slot → Bool) : List (BitVec 32) :=
  ((List.finRange window).filter fun k => (q.slots k).occupied && p (q.slots k)).map fun k => (q.slots k).seq

/-- What is picked is in the map and has the property. -/
lemma mem_picked (h : Holds q m) {p : Slot → Bool} {seq : BitVec 32} :
    seq ∈ picked q p ↔ m seq ≠ none ∧ p (q.slots (slotIdx seq)) = true := by
  rw [picked, List.mem_map]
  constructor
  · rintro ⟨k, mem, rfl⟩
    rw [List.mem_filter, Bool.and_eq_true] at mem
    obtain ⟨_, occ, hp⟩ := mem
    obtain ⟨place, b, _, entry⟩ := h.slot occ
    rw [place, entry]
    exact ⟨Option.some_ne_none _, hp⟩
  · rintro ⟨ne, hp⟩
    obtain ⟨occ, here, _⟩ := h.found ne
    refine ⟨slotIdx seq, ?_, here⟩
    rw [List.mem_filter, Bool.and_eq_true]
    exact ⟨List.mem_finRange _, occ, hp⟩

/-- No number is picked twice. -/
lemma nodup_picked (h : Holds q m) (p : Slot → Bool) : (picked q p).Nodup := by
  apply List.Nodup.map_on _ ((List.nodup_finRange window).filter _)
  intro k mem k' mem' same
  rw [List.mem_filter, Bool.and_eq_true] at mem mem'
  rw [← (h.slot mem.2.1).1, ← (h.slot mem'.2.1).1, same]

/-- `check_timeouts` finds the packets of the map whose time is up. -/
lemma mem_checkTimeouts (h : Holds q m) {nowTsc timeoutTsc : BitVec 64} {seq : BitVec 32} :
    seq ∈ q.checkTimeouts nowTsc timeoutTsc
      ↔ ∃ b t, m seq = some (b, t) ∧ timeoutTsc ≤ nowTsc - t := by
  refine Iff.trans (h.mem_picked (p := fun s => timeoutTsc ≤ nowTsc - s.sentTsc)) ?_
  rw [decide_eq_true_eq]
  constructor
  · rintro ⟨ne, late⟩
    obtain ⟨_, _, b, _, entry⟩ := h.found ne
    exact ⟨b, _, entry, late⟩
  · rintro ⟨b, t, entry, late⟩
    obtain ⟨_, _, _, time⟩ := h.eq_some_iff.mp entry
    rw [time, entry]
    exact ⟨Option.some_ne_none _, late⟩

/-- It finds each of them once. -/
lemma nodup_checkTimeouts (h : Holds q m) (nowTsc timeoutTsc : BitVec 64) :
    (q.checkTimeouts nowTsc timeoutTsc).Nodup :=
  h.nodup_picked fun s => timeoutTsc ≤ nowTsc - s.sentTsc

/-- The packets that an ACK takes. -/
def taken (q : UnackedQueue) (upToSeq : BitVec 32) : List (BitVec 32) :=
  picked q fun s => (s.seq - upToSeq).toInt < 0

/-- What `mark_acked` takes is acknowledged. -/
lemma mem_taken (h : Holds q m) {low upToSeq : BitVec 32} (fits : FitsAt low m)
    (near : Near low upToSeq) {seq : BitVec 32} : seq ∈ taken q upToSeq ↔ m.Acked low upToSeq seq := by
  rw [taken, h.mem_picked, decide_eq_true_eq]
  apply and_congr_right
  intro ne
  obtain ⟨occ, here, _⟩ := h.found ne
  have hit := h.hit_iff fits near occ
  rwa [here] at hit ⊢

/-- What `mark_acked` takes, slot by slot. -/
lemma taken_eq (q : UnackedQueue) (upToSeq : BitVec 32) :
    taken q upToSeq = ((List.finRange window).filter fun k => UnackedQueue.hit upToSeq (q.slots k)).map
      fun k => (q.slots k).seq := rfl

/-- `mark_acked` gives back the buffers of the packets that it takes, once each. -/
lemma markAcked_pool (h : Holds q m) (upToSeq : BitVec 32) (pool : BufferPool) :
    (q.markAcked upToSeq pool).2.2
      = (taken q upToSeq).foldl (fun p seq => releaseBuf .acked ((m seq).map Prod.fst) p) pool := by
  rw [UnackedQueue.markAcked_pool, List.foldl_map, taken_eq, List.foldl_map, List.foldl_filter]
  apply List.foldl_ext
  intro p k _
  by_cases hit : UnackedQueue.hit upToSeq (q.slots k) = true
  · rw [if_pos hit, if_pos hit]
    rw [UnackedQueue.hit, Bool.and_eq_true] at hit
    obtain ⟨_, b, buf, entry⟩ := h.slot hit.1
    rw [buf, entry]
    rfl
  · rw [if_neg hit, if_neg hit]

/-- `mark_acked` returns the time of the newest packet that it takes. -/
lemma markAcked_result (h : Holds q m) {low upToSeq : BitVec 32} (fits : FitsAt low m)
    (pool : BufferPool) :
    taken q upToSeq = [] ∧ (q.markAcked upToSeq pool).1 = 0 ∨
      ∃ seq ∈ taken q upToSeq, (m seq).map Prod.snd = some (q.markAcked upToSeq pool).1 ∧
        ∀ seq' ∈ taken q upToSeq, (seq' - low).toNat ≤ (seq - low).toNat := by
  have slots : ∀ k ∈ (List.finRange window).filter fun k => UnackedQueue.hit upToSeq (q.slots k),
      m (q.slots k).seq ≠ none ∧ (m (q.slots k).seq).map Prod.snd = some (q.slots k).sentTsc := by
    intro k mem
    rw [List.mem_filter, UnackedQueue.hit, Bool.and_eq_true] at mem
    obtain ⟨_, b, _, entry⟩ := h.slot mem.2.1
    rw [entry]
    exact ⟨Option.some_ne_none _, rfl⟩
  rw [UnackedQueue.markAcked_newest, taken_eq]
  generalize (List.finRange window).filter _ = ks at slots ⊢
  have inside : ∀ s ∈ ks.map q.slots, (s.seq - low).toNat < 256 := by
    intro s mem
    obtain ⟨k, memk, rfl⟩ := List.mem_map.mp mem
    exact fits _ (slots k memk).1
  rcases UnackedQueue.foldl_later inside with ⟨empty, none⟩ | ⟨s, mem, some, greatest⟩
  · left
    rw [none, List.map_eq_nil_iff.mp empty]
    exact ⟨rfl, rfl⟩
  · right
    obtain ⟨k, memk, rfl⟩ := List.mem_map.mp mem
    refine ⟨(q.slots k).seq, List.mem_map_of_mem memk, ?_, ?_⟩
    · rw [some]
      exact (slots k memk).2
    · intro seq' mem'
      obtain ⟨k', memk', rfl⟩ := List.mem_map.mp mem'
      exact greatest _ (List.mem_map_of_mem memk')

end Holds

/-- A queue that was used as a map is one. -/
lemma Mapped.holds {q : UnackedQueue} {m : Entries} (run : Mapped q m) : Holds q m := by
  induction run with
  | new => exact .new
  | markSent seq buf sentTsc pool low _ fits ih => exact ih.markSent fits pool
  | markAcked upToSeq pool low _ fits near ih => exact ih.markAcked fits near pool
  | touch seq nowTsc _ ih => exact ih.touch seq nowTsc
  | releaseAll pool _ _ => exact .releaseAll _ pool

/-- For every sequence of calls in which the packets fit in a window, the queue answers as the map does.
An ACK that is near the window takes exactly the packets serially before it out of the map, gives the
buffer of each back once, and returns when the serially greatest of them was sent. -/
theorem queue_is_map {q : UnackedQueue} {m : Entries} (run : Mapped q m) :
    (∀ seq, q.occupied seq = (m seq).isSome) ∧
    (∀ seq, q.bufferFor seq = (m seq).map Prod.fst) ∧
    (∀ nowTsc timeoutTsc, (q.checkTimeouts nowTsc timeoutTsc).Nodup ∧
      ∀ seq, seq ∈ q.checkTimeouts nowTsc timeoutTsc
        ↔ ∃ buf sentTsc, m seq = some (buf, sentTsc) ∧ timeoutTsc ≤ nowTsc - sentTsc) ∧
    ∀ low upToSeq pool, FitsAt low m → Near low upToSeq →
      (q.markAcked upToSeq pool).2.1.entries = Entries.ack low upToSeq m ∧
      ∃ acked : List (BitVec 32), acked.Nodup ∧
        (∀ seq, seq ∈ acked ↔ m seq ≠ none ∧ Before low upToSeq seq) ∧
        (q.markAcked upToSeq pool).2.2
          = acked.foldl (fun p seq => releaseBuf .acked ((m seq).map Prod.fst) p) pool ∧
        (acked = [] ∧ (q.markAcked upToSeq pool).1 = 0 ∨
          ∃ seq ∈ acked, (m seq).map Prod.snd = some (q.markAcked upToSeq pool).1 ∧
            ∀ seq' ∈ acked, (seq' - low).toNat ≤ (seq - low).toNat) := by
  have h := run.holds
  refine ⟨?_, h.bufferFor_eq, ?_, ?_⟩
  · intro seq
    rw [Bool.eq_iff_iff, h.occupied_iff, Option.isSome_iff_ne_none]
  · intro nowTsc timeoutTsc
    exact ⟨h.nodup_checkTimeouts nowTsc timeoutTsc, fun seq => h.mem_checkTimeouts⟩
  · intro low upToSeq pool fits near
    refine ⟨(h.markAcked fits near pool).map, Holds.taken q upToSeq, h.nodup_picked _, ?_, ?_, ?_⟩
    · exact fun seq => h.mem_taken fits near
    · exact h.markAcked_pool upToSeq pool
    · exact h.markAcked_result fits pool

/-- Two packets around the end of the numbers, and an ACK for the first. -/
theorem queue_is_map_wrap :
    Mapped ((UnackedQueue.new.markSent 4294967295 3 10 (.new 64 8 fun _ => 0)).1.markSent 0 4 20
        (.new 64 8 fun _ => 0)).1
      (Entries.put 0 4 20 (Entries.put 4294967295 3 10 fun _ => none)) ∧
    FitsAt 4294967295 (Entries.put 0 4 20 (Entries.put 4294967295 3 10 fun _ => none)) ∧
    Near 4294967295 0 ∧
    ((UnackedQueue.new.markSent 4294967295 3 10 (.new 64 8 fun _ => 0)).1.markSent 0 4 20
        (.new 64 8 fun _ => 0)).1.bufferFor 256 = none ∧
    (((UnackedQueue.new.markSent 4294967295 3 10 (.new 64 8 fun _ => 0)).1.markSent 0 4 20
        (.new 64 8 fun _ => 0)).1.markAcked 0 (.new 64 8 fun _ => 0)).2.1.entries
      = Entries.ack 4294967295 0 (Entries.put 0 4 20 (Entries.put 4294967295 3 10 fun _ => none)) := by
  have one : FitsAt 4294967295 (Entries.put 4294967295 3 10 fun _ => none) :=
    (FitsAt.none _).put (by decide) 3 10
  have two : FitsAt 4294967295 (Entries.put 0 4 20 (Entries.put 4294967295 3 10 fun _ => none)) :=
    one.put (by decide) 4 20
  have run := (Mapped.new.markSent 4294967295 3 10 (.new 64 8 fun _ => 0) _ one).markSent 0 4 20
    (.new 64 8 fun _ => 0) _ two
  have near : Near 4294967295 0 := by
    unfold Near
    decide
  exact ⟨run, two, near, (queue_is_map run).2.1 256, ((queue_is_map run).2.2.2 _ _ _ two near).1⟩

end UxNet.TcpLite
