import UxNet.Packet.Rss

/-!
# Batch dispatch

`BatchProcessor::dispatch_batch` of `batch_processor.cpp`: a table of handlers by UDP destination port
and a default handler. Handlers are an arbitrary type; a null pointer is `none`. The last part says when
the parser, the queue choice and the handler choice depend on the frame alone.
-/

namespace UxNet.Packet

variable {Handler Buf : Type}

/-- The registrations of a `BatchProcessor`. -/
structure HandlerTable (Handler : Type) where
  udp : BitVec 16 → Option Handler
  default : Option Handler

/-- The handler `dispatch_batch` chooses for a packet. -/
def HandlerTable.handlerFor (table : HandlerTable Handler) (pkt : ParsedPacket) :
    Access (Option Handler) := do
  let h ← if pkt.hasUdp then (do
      let port ← pkt.udp.dstPort
      pure (table.udp port))
    else pure none
  pure (if h.isNone then table.default else h)

/-- One packet of a batch: what was parsed, the bytes it was parsed from, and the buffer. -/
structure BatchEntry (Buf : Type) where
  pkt : ParsedPacket
  mem : ℕ → BitVec 8
  buf : Buf

/-- What `dispatch_batch` has done: its `handle` calls, the handlers to flush, the packets counted. -/
structure Dispatch (Handler Buf : Type) where
  handled : List (Handler × Buf)
  touched : List Handler
  packetsDispatched : BitVec 64

/-- One round of the loop of `dispatch_batch`. -/
def HandlerTable.dispatchOne [DecidableEq Handler] (table : HandlerTable Handler)
    (d : Dispatch Handler Buf) (e : BatchEntry Buf) : Dispatch Handler Buf :=
  match (table.handlerFor e.pkt).run e.mem with
  | some h =>
    { handled := d.handled ++ [(h, e.buf)]
      touched := if h ∈ d.touched then d.touched else d.touched ++ [h]
      packetsDispatched := d.packetsDispatched + 1 }
  | none => d

/-- `BatchProcessor::dispatch_batch`; `touched` is the order of the `flush` calls at its end. -/
def HandlerTable.dispatchBatch [DecidableEq Handler] (table : HandlerTable Handler)
    (packetsDispatched : BitVec 64) (batch : List (BatchEntry Buf)) : Dispatch Handler Buf :=
  batch.foldl table.dispatchOne
    { handled := [], touched := [], packetsDispatched := packetsDispatched }

/-- The port is read only of what was taken for UDP. -/
lemma HandlerTable.handlerFor_reads (table : HandlerTable Handler) (pkt : ParsedPacket)
    (m : ℕ → BitVec 8) {i : ℕ} (mem : i ∈ (table.handlerFor pkt).reads m) :
    pkt.hasUdp = true ∧ pkt.udp.buf ≤ i ∧ i < pkt.udp.buf + 4 := by
  unfold handlerFor at mem
  cases hu : pkt.hasUdp with
  | true =>
    simp [hu, UDPView.dstPort, rd16] at mem
    simp
    omega
  | false => simp [hu] at mem

/-- The `handle` calls are the packets that have a handler, in order. -/
theorem HandlerTable.dispatchBatch_handled [DecidableEq Handler] (table : HandlerTable Handler)
    (n : BitVec 64) (batch : List (BatchEntry Buf)) :
    (table.dispatchBatch n batch).handled
      = batch.filterMap fun e => ((table.handlerFor e.pkt).run e.mem).map fun h => (h, e.buf) := by
  have run : ∀ d : Dispatch Handler Buf, (batch.foldl table.dispatchOne d).handled
      = d.handled ++ batch.filterMap fun e =>
        ((table.handlerFor e.pkt).run e.mem).map fun h => (h, e.buf) := by
    induction batch with
    | nil => simp
    | cons e batch ih =>
      intro d
      rw [List.foldl_cons, ih, List.filterMap_cons, dispatchOne]
      cases (table.handlerFor e.pkt).run e.mem with
      | none => rfl
      | some h => simp
  simpa [dispatchBatch] using run { handled := [], touched := [], packetsDispatched := n }

/-! ## Two buffers with one frame -/

variable {m m' : ℕ → BitVec 8} {len : BitVec 64}

/-- The header length that the header gives lies inside the frame, and so do the ports of what is taken
for UDP. -/
def Covered (m : ℕ → BitVec 8) (len : ℕ) : Prop :=
  24 ≤ len ∧ 14 + ihlAt m ≤ len ∧ (LooksUdp m len → 14 + ihlAt m + 4 ≤ len)

/-- The reads of `parse` stay inside the frame exactly if the header does. -/
lemma parse_reads_lt_iff (m : ℕ → BitVec 8) (len : BitVec 64) (n : ℕ) :
    (∀ i ∈ (parse len).reads m, i < n) ↔ 24 ≤ n ∧ 14 + ihlAt m ≤ n := by
  simp only [parse_reads]
  constructor
  · intro all
    have proto := all 23 (by omega)
    refine ⟨by omega, ?_⟩
    by_contra gt
    have last := all (14 + ihlAt m - 1) (by omega)
    omega
  · rintro ⟨h1, h2⟩ i h
    omega

/-- On a covered frame two buffers that agree on the frame are parsed alike. -/
lemma Covered.parse_eq (cov : Covered m len.toNat) (agree : ∀ i < len.toNat, m' i = m i) :
    (parse len).run m' = (parse len).run m := by
  have inside := (parse_reads_lt_iff m len len.toNat).mpr ⟨cov.1, cov.2.1⟩
  exact (Access.run_congr _ fun i mem => (agree i (inside i mem)).symm).1.symm

/-- The queue of a covered frame depends on its bytes only. -/
lemma Covered.submitIndex_eq (cov : Covered m len.toNat) (agree : ∀ i < len.toNat, m' i = m i)
    (d : RSSDistributor) :
    (d.submitIndex ((parse len).run m')).run m' = (d.submitIndex ((parse len).run m)).run m := by
  rw [cov.parse_eq agree]
  obtain ⟨ipBuf, udpBuf, hasIp, hasUdp⟩ := parse_flags m len
  refine (Access.run_congr _ fun i mem => (agree i ?_).symm).1.symm
  rcases d.submitIndex_reads _ m mem with ⟨is, _, hi⟩ | ⟨is, _, hi⟩
  · have looks : LooksIPv4 m len.toNat := by
      rcases is with is | is
      · exact (of_decide_eq_true (hasUdp.symm.trans is)).1
      · exact of_decide_eq_true (hasIp.symm.trans is)
    have := looks.1
    omega
  · have := cov.2.2 (of_decide_eq_true (hasUdp.symm.trans is))
    omega

/-- The handler of a covered frame depends on its bytes only. -/
lemma Covered.handlerFor_eq (cov : Covered m len.toNat) (agree : ∀ i < len.toNat, m' i = m i)
    (table : HandlerTable Handler) :
    (table.handlerFor ((parse len).run m')).run m'
      = (table.handlerFor ((parse len).run m)).run m := by
  rw [cov.parse_eq agree]
  obtain ⟨_, udpBuf, _, hasUdp⟩ := parse_flags m len
  refine (Access.run_congr _ fun i mem => (agree i ?_).symm).1.symm
  obtain ⟨is, _, hi⟩ := table.handlerFor_reads _ m mem
  have := cov.2.2 (of_decide_eq_true (hasUdp.symm.trans is))
  omega

/-- The handler that a table of ports chooses for what is taken for UDP. -/
lemma handlerFor_port (udp : LooksUdp m len.toNat) :
    ((HandlerTable.mk some none).handlerFor ((parse len).run m)).run m
      = some (m (14 + ihlAt m + 2) ++ m (14 + ihlAt m + 3)) := by
  obtain ⟨_, udpBuf, _, hasUdp⟩ := parse_flags m len
  rw [decide_eq_true udp] at hasUdp
  simp [HandlerTable.handlerFor, hasUdp, UDPView.dstPort, run_rd16, udpBuf]

/-- If the ports lie outside the frame, a byte outside the frame decides on the handler. -/
lemma handlerFor_stale (udp : LooksUdp m len.toNat) (hdr : 14 + ihlAt m ≤ len.toNat)
    (out : len.toNat < 14 + ihlAt m + 4) :
    ∃ m', (∀ i < len.toNat, m' i = m i) ∧
      ((HandlerTable.mk some none).handlerFor ((parse len).run m')).run m'
        ≠ ((HandlerTable.mk some none).handlerFor ((parse len).run m)).run m := by
  have long := udp.1.1
  let m' := Function.update m (14 + ihlAt m + 3) (m (14 + ihlAt m + 3) + 1)
  have agree : ∀ i, i ≠ 14 + ihlAt m + 3 → m' i = m i := fun i ne => Function.update_of_ne ne _ _
  have low : ∀ i < 34, m' i = m i := fun i lt => agree i (by omega)
  have ihl : ihlAt m' = ihlAt m := by
    unfold ihlAt
    rw [low 14 (by omega)]
  have total : totalLenAt m' = totalLenAt m := by
    unfold totalLenAt
    rw [low 16 (by omega), low 17 (by omega)]
  have udp' : LooksUdp m' len.toNat := by
    unfold LooksUdp LooksIPv4 at udp ⊢
    rw [ihl, total, low 12 (by omega), low 13 (by omega), low 14 (by omega), low 23 (by omega)]
    exact udp
  refine ⟨m', fun i lt => agree i (by omega), ?_⟩
  rw [handlerFor_port udp, handlerFor_port udp', ihl]
  intro e
  have port := Option.some.inj e
  have byte : m' (14 + ihlAt m + 3) = m (14 + ihlAt m + 3) := by
    have cut := congrArg (BitVec.extractLsb' 0 8) port
    rwa [BitVec.extractLsb'_append_eq_right, BitVec.extractLsb'_append_eq_right] at cut
  rw [show m' (14 + ihlAt m + 3) = m (14 + ihlAt m + 3) + 1 from Function.update_self _ _ _] at byte
  simp at byte

/-- For every frame: `parse` reads only bytes of the frame, and every buffer with the same frame gets the
same flags, the same queue and the same handler, exactly if the frame covers its first 24 bytes, the
header length its header gives, and the ports of what is taken for UDP. -/
theorem parse_depends_on_frame_iff (m : ℕ → BitVec 8) (len : BitVec 64) :
    ((∀ i ∈ (parse len).reads m, i < len.toNat) ∧
      ∀ m' : ℕ → BitVec 8, (∀ i < len.toNat, m' i = m i) →
        ((parse len).run m').valid = ((parse len).run m).valid ∧
        ((parse len).run m').hasIp = ((parse len).run m).hasIp ∧
        ((parse len).run m').hasUdp = ((parse len).run m).hasUdp ∧
        (∀ d : RSSDistributor, (d.submitIndex ((parse len).run m')).run m'
          = (d.submitIndex ((parse len).run m)).run m) ∧
        ∀ (Handler : Type) (table : HandlerTable Handler),
          (table.handlerFor ((parse len).run m')).run m'
            = (table.handlerFor ((parse len).run m)).run m) ↔
    Covered m len.toNat := by
  rw [parse_reads_lt_iff]
  constructor
  · rintro ⟨⟨fixed, hdr⟩, same⟩
    refine ⟨fixed, hdr, ?_⟩
    intro udp
    by_contra out
    obtain ⟨m', agree, ne⟩ := handlerFor_stale udp hdr (by omega)
    exact ne ((same m' agree).2.2.2.2 _ _)
  · intro cov
    refine ⟨⟨cov.1, cov.2.1⟩, ?_⟩
    intro m' agree
    have e := cov.parse_eq agree
    refine ⟨by rw [e], by rw [e], by rw [e], cov.submitIndex_eq agree, ?_⟩
    exact fun _ table => cov.handlerFor_eq agree table

/-- An IPv4 header that claims 60 bytes, with two bytes behind its first 20. -/
def longHeaderFrame (b0 b1 : BitVec 8) : ℕ → BitVec 8
  | 12 => 0x08
  | 14 => 0x4F
  | 34 => b0
  | 35 => b1
  | _ => 0

/-- Two buffers with the same frame of 34 bytes: `parse` reads byte 34 behind it, and the frame is valid
in one buffer and not in the other. -/
theorem stale_bytes_decide_validity :
    (∀ i < 34, longHeaderFrame 0xB0 0xFF i = longHeaderFrame 0 0 i) ∧
    34 ∈ (parse 34).reads (longHeaderFrame 0 0) ∧
    ((parse 34).run (longHeaderFrame 0xB0 0xFF)).valid = true ∧
    ((parse 34).run (longHeaderFrame 0 0)).valid = false := by
  decide +kernel

end UxNet.Packet
