import UxNet.TcpLite.Sender

/-!
# The receiving side of a session

`Receiver P` is what holds of a session as a receiver of the packets `P` of its peer: the data callback
has been given the payloads of `P` in order, and each set bit of the bitmap stands for a packet of `P`
whose payload is in its reassembly slot. A step keeps it if no round of `deliver_in_order` starts while a
data callback runs, and if a packet whose data part is reached is a packet of `P`, less than a turn of the
sequence numbers ahead of the base and at most a turn less a window behind it.
-/

namespace UxNet.TcpLite

open TcpLiteSession

/-- The packet of a round of `deliver_in_order` whose data callback runs. -/
def Frame.calling : Frame → Option (BitVec 32)
  | .delivered seq => some seq
  | _ => none

/-- The packets whose data callbacks run, the innermost first. -/
def calls (fs : List Frame) : List (BitVec 32) := fs.filterMap Frame.calling

/-- Whether a frame is in the loop of `deliver_in_order`. -/
def Frame.delivering : Frame → Bool
  | .deliver => true
  | .delivered _ => true
  | _ => false

/-- The number of packets whose data callback has returned. -/
def returned (r : TcpLiteSession) (fs : List Frame) : ℕ := r.log.delivered.length - (calls fs).length

/-- The index of the first packet that has not been received. -/
def expected (r : TcpLiteSession) (fs : List Frame) : ℕ :=
  returned r fs + contig r.recvBitmap.received

/-- What holds of a session as a receiver of the packets `P`, with `fs` its active calls. -/
structure Receiver (P : List Bytes) (r : TcpLiteSession) (fs : List Frame) : Prop where
  called : calls fs = [] ∨ calls fs = [r.recvBitmap.baseSeq] ∧ 0 < r.log.delivered.length ∧
    r.recvBitmap.received.getLsbD 0 = true
  base : r.recvBitmap.baseSeq = BitVec.ofNat 32 (returned r fs)
  delivered : r.log.delivered = (P.map payloadOf).take r.log.delivered.length
  bits : ∀ k, r.recvBitmap.received.getLsbD k = true → ∃ bs, P[returned r fs + k]? = some bs ∧
    r.reasm (slotIdx (BitVec.ofNat 32 (returned r fs + k))) = payloadOf bs
  counted : r.bytesReceived
    = BitVec.ofNat 64 (r.log.delivered.take (returned r fs)).flatten.length
  calm : r.recvBitmap.received.getLsbD 0 = true → fs.any Frame.delivering = true

/-- A buffer holds packet `j` of `P`, with a payload of `plen` bytes. -/
def HoldsPacket (P : List Bytes) (p : BufferPool) (buf plen j : ℕ) : Prop :=
  ∃ bs ack, P[j]? = some bs ∧ IsPacket (BitVec.ofNat 32 j) ack bs ∧ p.read buf bs.length = bs ∧
    plen = (payloadOf bs).length

namespace Receiver

variable {P P' : List Bytes} {s s' : TcpLiteSession} {f : Frame} {new fs fs' : List Frame}

/-- No more is delivered than was sent. -/
lemma delivered_le (h : Receiver P s fs) : s.log.delivered.length ≤ P.length := by
  have e := congrArg List.length h.delivered
  rw [List.length_take, List.length_map] at e
  omega

/-- What has been received is among the packets of the peer. -/
lemma expected_le (h : Receiver P s fs) : expected s fs ≤ P.length := by
  unfold expected
  rcases Nat.eq_zero_or_pos (contig s.recvBitmap.received) with zero | pos
  · have le := h.delivered_le
    unfold returned
    omega
  · obtain ⟨bs, get, _⟩ := h.bits (contig s.recvBitmap.received - 1)
      (getLsbD_of_lt_contig (Nat.sub_lt pos Nat.one_pos))
    have lt := (List.getElem?_eq_some_iff.mp get).1
    omega

/-- The peer may send more. -/
lemma mono (h : Receiver P s fs) (pre : P <+: P') : Receiver P' s fs where
  called := h.called
  base := h.base
  delivered := by
    obtain ⟨Q, rfl⟩ := pre
    rw [List.map_append, List.take_append_of_le_length]
    · exact h.delivered
    · rw [List.length_map]
      exact h.delivered_le
  bits := by
    intro k bit
    obtain ⟨bs, get, slot⟩ := h.bits k bit
    obtain ⟨Q, rfl⟩ := pre
    refine ⟨bs, ?_, slot⟩
    rw [List.getElem?_append_left (List.getElem?_eq_some_iff.mp get).1]
    exact get
  counted := h.counted
  calm := h.calm

/-- Outside `deliver_in_order` the packet at the base has not been received. -/
lemma expected_eq (h : Receiver P s fs) (idle : fs.any Frame.delivering = false) :
    expected s fs = returned s fs := by
  have none : contig s.recvBitmap.received = 0 := by
    rw [← Nat.le_zero, ← Nat.not_lt, contig_pos_iff]
    intro bit
    rw [h.calm bit] at idle
    cases idle
  rw [expected, none, Nat.add_zero]

/-- The ACK number that a session sends. -/
lemma cumulativeAck (h : Receiver P s fs) :
    s.recvBitmap.cumulativeAck = BitVec.ofNat 32 (expected s fs) := by
  rw [RecvBitmap.cumulativeAck, h.base, ← BitVec.ofNat_add]
  rfl

/-- A step that the receiving side does not see. -/
lemma of_same (h : Receiver P s fs) (called : calls fs' = calls fs)
    (calm : fs.any Frame.delivering = true → fs'.any Frame.delivering = true)
    (bitmap : s'.recvBitmap = s.recvBitmap) (reasm : s'.reasm = s.reasm)
    (log : s'.log.delivered = s.log.delivered) (bytes : s'.bytesReceived = s.bytesReceived) :
    Receiver P s' fs' ∧ expected s' fs' = expected s fs := by
  have ret : returned s' fs' = returned s fs := by rw [returned, returned, log, called]
  refine ⟨⟨?_, ?_, ?_, ?_, ?_, ?_⟩, ?_⟩
  · rw [called, bitmap, log]
    exact h.called
  · rw [ret, bitmap]
    exact h.base
  · rw [log]
    exact h.delivered
  · rw [ret, bitmap, reasm]
    exact h.bits
  · rw [ret, log, bytes]
    exact h.counted
  · rw [bitmap]
    exact fun bit => calm (h.calm bit)
  · rw [expected, expected, ret, bitmap]

/-- Setting the bit of a packet of the peer whose payload is in its slot. -/
lemma mark {j : ℕ} {bs : Bytes} (h : Receiver P s fs) (calm : fs.any Frame.delivering = true)
    (get : P[j]? = some bs) (lo : returned s fs ≤ j) (hi : j < returned s fs + 256) :
    Receiver P { s with
      recvBitmap := { s.recvBitmap with
        received := s.recvBitmap.received ||| BitVec.twoPow 256 (j - returned s fs) }
      reasm := Function.update s.reasm (slotIdx (BitVec.ofNat 32 j)) (payloadOf bs) } fs where
  called := by
    rcases h.called with none | ⟨one, pos, bit⟩
    · exact .inl none
    · exact .inr ⟨one, pos, by simp [bit]⟩
  base := h.base
  delivered := h.delivered
  bits := by
    intro k bit
    by_cases hk : k = j - returned s fs
    · subst hk
      show ∃ bs', P[returned s fs + (j - returned s fs)]? = some bs' ∧
        Function.update s.reasm (slotIdx (BitVec.ofNat 32 j)) (payloadOf bs)
          (slotIdx (BitVec.ofNat 32 (returned s fs + (j - returned s fs)))) = payloadOf bs'
      rw [Nat.add_sub_cancel' lo, Function.update_self]
      exact ⟨bs, get, rfl⟩
    · have old : s.recvBitmap.received.getLsbD k = true := by
        have ne : ¬ j - returned s fs = k := fun e => hk e.symm
        simpa [BitVec.getLsbD_twoPow, ne] using bit
      obtain ⟨bs', get', slot⟩ := h.bits k old
      refine ⟨bs', get', ?_⟩
      have lt := BitVec.lt_of_getLsbD old
      have ne : slotIdx (BitVec.ofNat 32 (returned s fs + k)) ≠ slotIdx (BitVec.ofNat 32 j) := by
        rcases Nat.lt_or_gt_of_ne (show returned s fs + k ≠ j by omega) with less | more
        · exact slotIdx_ne less (by omega)
        · exact (slotIdx_ne more (by omega)).symm
      exact (Function.update_of_ne ne _ _).trans slot
  counted := h.counted
  calm := fun _ => calm

/-- A packet of the peer goes to its slot if it is in the window and new. -/
lemma store {buf plen j : ℕ} (h : Receiver P s fs) (calm : fs.any Frame.delivering = true)
    (holds : HoldsPacket P s.pool buf plen j) (ahead : j < returned s fs + 2 ^ 32)
    (behind : returned s fs + 256 ≤ j + 2 ^ 32) :
    Receiver P (s.storeData buf plen) fs ∧
      (∀ k, s.recvBitmap.received.getLsbD k = true →
        (s.storeData buf plen).recvBitmap.received.getLsbD k = true) ∧
      (returned s fs ≤ j → j < returned s fs + 256 →
        (s.storeData buf plen).recvBitmap.received.getLsbD (j - returned s fs) = true) := by
  obtain ⟨bs, ack, get, ⟨payload, _, _, rfl⟩, mem, rfl⟩ := holds
  have win : (BitVec.ofNat 32 j - s.recvBitmap.baseSeq).toNat < 256
      ↔ returned s fs ≤ j ∧ j < returned s fs + 256 := by
    rw [h.base]
    exact Serial.window_iff ahead behind
  rw [TcpLiteHeader.length_encode] at mem
  have fetch := fetchData_run s.recvBitmap (readSeq_encode mem) (readPayload_encode mem)
  rw [show (TcpLiteHeader.makeData (BitVec.ofNat 32 j) ack _).seqNum = BitVec.ofNat 32 j from rfl]
    at fetch
  have mark := s.recvBitmap.markReceived_eq (BitVec.ofNat 32 j)
  rw [payloadOf_encode]
  unfold storeData
  rw [fetch]
  split at mark
  · rename_i new
    obtain ⟨lo, hi⟩ := win.mp new.1
    have off : (BitVec.ofNat 32 j - s.recvBitmap.baseSeq).toNat = j - returned s fs := by
      rw [h.base, Serial.dist_of_le lo, Nat.mod_eq_of_lt (by omega)]
    rw [off] at mark
    have h' := h.mark calm get lo hi
    rw [payloadOf_encode] at h'
    simp only [mark, if_true]
    refine ⟨h', ?_, ?_⟩
    · intro k bit
      simp [bit]
    · intro _ _
      simp [show j - returned s fs < 256 by omega]
  · rename_i old
    simp only [mark, Bool.false_eq_true, if_false]
    refine ⟨h, fun k bit => bit, ?_⟩
    intro lo hi
    have off : (BitVec.ofNat 32 j - s.recvBitmap.baseSeq).toNat = j - returned s fs := by
      rw [h.base, Serial.dist_of_le lo, Nat.mod_eq_of_lt (by omega)]
    rw [not_and, off, Bool.not_eq_false] at old
    exact old (by omega)

/-- The data callback is given the packet at the base. -/
lemma deliverCall (h : Receiver P s (.deliver :: fs)) (op : s.deliverOpen = true)
    (alone : calls fs = []) :
    Receiver P s.deliverCall (.sends (s.tape 0).sends :: .delivered s.recvBitmap.baseSeq :: fs) ∧
      expected s.deliverCall (.sends (s.tape 0).sends :: .delivered s.recvBitmap.baseSeq :: fs)
        = expected s (.deliver :: fs) := by
  rw [deliverOpen_iff] at op
  have ret : returned s (.deliver :: fs) = s.log.delivered.length := by
    show s.log.delivered.length - (calls fs).length = _
    rw [alone]
    rfl
  have running : calls (.sends (s.tape 0).sends :: .delivered s.recvBitmap.baseSeq :: fs)
      = [s.recvBitmap.baseSeq] := congrArg (s.recvBitmap.baseSeq :: ·) alone
  have ret' : returned s.deliverCall (.sends (s.tape 0).sends :: .delivered s.recvBitmap.baseSeq :: fs)
      = s.log.delivered.length := by
    rw [returned, running]
    exact congrArg (· - 1) (List.length_append.trans rfl)
  have bits := h.bits
  have base := h.base
  have counted := h.counted
  rw [ret] at bits base counted
  obtain ⟨bs, get, slot⟩ := bits 0 op
  refine ⟨⟨.inr ⟨running, ?_, op⟩, ?_, ?_, ?_, ?_, fun _ => rfl⟩, ?_⟩
  · show 0 < (s.log.delivered ++ _).length
    simp
  · rw [ret']
    exact base
  · show s.log.delivered ++ [s.reasm (slotIdx s.recvBitmap.baseSeq)]
      = (P.map payloadOf).take (s.log.delivered ++ [_]).length
    rw [List.length_append, List.length_singleton, List.take_add_one, ← h.delivered, base,
      List.getElem?_map]
    rw [Nat.add_zero] at get slot
    rw [get, slot]
    rfl
  · rw [ret']
    exact bits
  · rw [ret']
    show s.bytesReceived = BitVec.ofNat 64 ((s.log.delivered ++ [_]).take _).flatten.length
    rw [List.take_append_of_le_length (Nat.le_refl _)]
    exact counted
  · rw [expected, expected, ret, ret']
    rfl

/-- After the callback the base moves on by one. -/
lemma deliverAdvance {seq : BitVec 32} (h : Receiver P s (.delivered seq :: fs)) :
    Receiver P (s.deliverAdvance seq) (.deliver :: fs) ∧
      expected (s.deliverAdvance seq) (.deliver :: fs) = expected s (.delivered seq :: fs) := by
  have running : calls (.delivered seq :: fs) = seq :: calls fs := rfl
  obtain ⟨rfl, none, pos, bit⟩ : seq = s.recvBitmap.baseSeq ∧ calls fs = [] ∧
      0 < s.log.delivered.length ∧ s.recvBitmap.received.getLsbD 0 = true := by
    rcases h.called with none | ⟨one, rest⟩
    · cases none
    · rw [running, List.cons.injEq] at one
      exact ⟨one.1, one.2, rest⟩
  obtain ⟨b, len⟩ : ∃ b, s.log.delivered.length = b + 1 := ⟨_, (Nat.succ_pred_eq_of_pos pos).symm⟩
  have ret : returned s (.delivered s.recvBitmap.baseSeq :: fs) = b := by
    rw [returned, running, none, len]
    rfl
  have bits := h.bits
  have base := h.base
  have counted := h.counted
  rw [ret] at bits base counted
  have ret' : returned (s.deliverAdvance s.recvBitmap.baseSeq) (.deliver :: fs) = b + 1 := by
    show s.log.delivered.length - (calls fs).length = b + 1
    rw [none, len]
    rfl
  have bitmap : (s.deliverAdvance s.recvBitmap.baseSeq).recvBitmap
      = { received := s.recvBitmap.received >>> 1, baseSeq := s.recvBitmap.baseSeq + 1 } :=
    s.recvBitmap.advance_one
  obtain ⟨bs, get, slot⟩ := bits 0 bit
  rw [Nat.add_zero] at get slot
  refine ⟨⟨.inl none, ?_, h.delivered, ?_, ?_, fun _ => rfl⟩, ?_⟩
  · rw [ret', bitmap, BitVec.ofNat_add, ← base]
    rfl
  · rw [ret', bitmap]
    intro k set
    rw [BitVec.getLsbD_ushiftRight] at set
    obtain ⟨bs', get', slot'⟩ := bits (1 + k) set
    have lt := BitVec.lt_of_getLsbD set
    rw [← Nat.add_assoc] at get' slot'
    refine ⟨bs', get', ?_⟩
    have ne := slotIdx_ne (i := b) (j := b + 1 + k) (by omega) (by omega)
    rw [← base] at ne
    exact (Function.update_of_ne ne.symm _ _).trans slot'
  · rw [ret']
    have last : s.log.delivered[b]? = some (payloadOf bs) := by
      rw [h.delivered, List.getElem?_take_of_lt (by omega), List.getElem?_map, get]
      rfl
    show s.bytesReceived + BitVec.ofNat 64 (s.reasm (slotIdx s.recvBitmap.baseSeq)).length
      = BitVec.ofNat 64 (s.log.delivered.take (b + 1)).flatten.length
    rw [List.take_add_one, last, counted, base, slot, ← BitVec.ofNat_add]
    simp
  · rw [expected, expected, ret, ret', bitmap]
    have shift := contig_shift bit
    show b + 1 + contig (s.recvBitmap.received >>> 1) = b + contig s.recvBitmap.received
    omega

/-- The code between two callbacks keeps the receiving side in order. -/
lemma exec (c : Case s f s' new) (h : Receiver P s (f :: fs))
    (alone : f = .deliver → s.deliverOpen = true → calls fs = [])
    (data : ∀ buf plen, f = .receiveData buf plen → 0 < plen → ∃ j, HoldsPacket P s.pool buf plen j ∧
      j < returned s (f :: fs) + 2 ^ 32 ∧ returned s (f :: fs) + 256 ≤ j + 2 ^ 32) :
    Receiver P s' (new ++ fs) ∧ expected s (f :: fs) ≤ expected s' (new ++ fs) := by
  have quiet : calls (new ++ fs) = calls (f :: fs) → f.delivering = false →
      s'.recvBitmap = s.recvBitmap → s'.reasm = s.reasm → s'.log.delivered = s.log.delivered →
      s'.bytesReceived = s.bytesReceived →
      Receiver P s' (new ++ fs) ∧ expected s (f :: fs) ≤ expected s' (new ++ fs) := by
    intro called idle bitmap reasm log bytes
    have calm : (f :: fs).any Frame.delivering = true → (new ++ fs).any Frame.delivering = true := by
      rw [List.any_cons, List.any_append, idle, Bool.false_or]
      intro rest
      rw [rest, Bool.or_true]
    obtain ⟨h', e⟩ := h.of_same called calm bitmap reasm log bytes
    exact ⟨h', e.ge⟩
  cases c with
  | pumpStop _ =>
    obtain ⟨_, _, e, _⟩ := pumpReset_frame s
    rw [e] at quiet ⊢
    exact quiet rfl rfl rfl rfl rfl rfl
  | pumpFull _ _ =>
    obtain ⟨_, _, e, _⟩ := pumpReset_frame { s with pool := _, tape := s.rest }
    rw [e] at quiet ⊢
    exact quiet rfl rfl rfl rfl rfl rfl
  | @ack buf hd _ _ =>
    obtain ⟨_, _, e⟩ := takeAck_frame s hd.ackNum
    rw [e] at quiet ⊢
    exact quiet rfl rfl rfl rfl rfl rfl
  | @store buf plen pos =>
    obtain ⟨j, holds, ahead, behind⟩ := data buf plen rfl pos
    have same : calls (.deliver :: .received buf :: fs) = calls (.receiveData buf plen :: fs) := rfl
    obtain ⟨h', _⟩ := h.of_same same (fun _ => rfl) rfl rfl rfl rfl
    obtain ⟨stored, sub, _⟩ := h'.store rfl holds ahead behind
    have kept : returned (s.storeData buf plen) (.deliver :: .received buf :: fs)
        = returned s (.receiveData buf plen :: fs) := by
      obtain ⟨_, _, e⟩ := storeData_frame s buf plen
      rw [e]
      rfl
    refine ⟨stored, ?_⟩
    show _ ≤ returned (s.storeData buf plen) (.deliver :: .received buf :: fs) + _
    rw [kept]
    exact Nat.add_le_add_left (contig_mono sub) _
  | deliverStop op =>
    rw [deliverOpen_iff] at op
    refine ⟨⟨h.called, h.base, h.delivered, h.bits, h.counted, ?_⟩, le_refl _⟩
    intro bit
    rw [op] at bit
    cases bit
  | deliverCall op =>
    obtain ⟨h', e⟩ := h.deliverCall op (alone rfl op)
    exact ⟨h', e.ge⟩
  | delivered =>
    obtain ⟨h', e⟩ := h.deliverAdvance
    exact ⟨h', e.ge⟩
  | _ => exact quiet rfl rfl rfl rfl rfl rfl

/-- A fresh session has received nothing of any packets. -/
lemma fresh (pool : BufferPool) (clock : TscClock) (rtoNs : BitVec 64) (tape : Tape) (P : List Bytes) :
    Receiver P (.new pool clock rtoNs tape) [] where
  called := .inl rfl
  base := rfl
  delivered := rfl
  bits := by
    intro k bit
    simp [TcpLiteSession.new, RecvBitmap.new] at bit
  counted := rfl
  calm := by
    intro bit
    simp [TcpLiteSession.new, RecvBitmap.new] at bit

end Receiver

end UxNet.TcpLite
