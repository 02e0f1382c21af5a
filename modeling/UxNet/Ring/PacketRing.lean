import UxNet.Lib.Ring
import UxNet.Pool.Basic

/-!
# PACKET_MMAP ring

`PacketRing` of `packet_ring.cpp` and the kernel on the other side of the mapping, in any interleaving.
The kernel has a cursor of its own: it publishes an arriving frame in the slot at its cursor if the
status word there is `TP_STATUS_KERNEL`, and drops it otherwise. In user space each access to the
mapping is a step: `receive` loads the status word and, if the frame is there, the three fields of the
header it needs; `release` stores the status word and then moves `current_frame_`. The program calls
`release` once after a successful `receive`, and may call `receive` again before that. An `Act` says what a
step of user space is to the program around it.

`published` and `released` are history: the frames the kernel has published, and the frames that user
space has given back, each as `receive` returned it and with the bytes that lay in its slot until then.
-/

namespace UxNet.PacketRing

/-- `TP_STATUS_KERNEL`. -/
def tpStatusKernel : BitVec 32 := 0

/-- `TP_STATUS_USER`. -/
def tpStatusUser : BitVec 32 := 1

/-- `TP_STATUS_LOSING`. -/
def tpStatusLosing : BitVec 32 := 4

/-- `kFrameSize`. -/
def kFrameSize : ℕ := 2048

/-- A slot: the fields of `tpacket2_hdr` that are read, and the bytes from `tp_mac` on. -/
structure Slot where
  tpStatus : BitVec 32
  tpLen : BitVec 32
  tpSnaplen : BitVec 32
  tpMac : BitVec 16
  bytes : Bytes

/-- `RxFrame`; `data` is an offset from the start of the mapping. -/
structure RxFrame where
  data : ℕ
  len : BitVec 32
  capturedLen : BitVec 32
deriving DecidableEq, Repr

/-- A frame that arrives, with the status bits the kernel sets besides `TP_STATUS_USER`. -/
structure Arrival where
  flags : BitVec 32
  len : BitVec 32
  snaplen : BitVec 32
  mac : BitVec 16
  bytes : Bytes

/-- The slot in which the kernel has published a frame. -/
def Arrival.slot (a : Arrival) : Slot where
  tpStatus := tpStatusUser ||| a.flags
  tpLen := a.len
  tpSnaplen := a.snaplen
  tpMac := a.mac
  bytes := a.bytes

/-- Where user space is. -/
inductive Pc where
  /-- between calls -/
  | idle
  /-- `receive`: the status word had the user bit; about to read `tp_mac` -/
  | readMac (status : BitVec 32)
  /-- `receive`: about to read `tp_len` -/
  | readLen (data : ℕ)
  /-- `receive`: about to read `tp_snaplen` -/
  | readSnaplen (data : ℕ) (len : BitVec 32)
  /-- `release`: the slot is handed back; about to move `current_frame_` -/
  | advance
deriving DecidableEq, Repr

/-- What a step of user space is to the program. -/
inductive Act where
  /-- `receive` returns `false` -/
  | missed
  /-- `receive` finds a frame, or goes on -/
  | reads
  /-- `receive` returns `true` with a frame -/
  | got (frame : RxFrame)
  /-- `release` hands the slot back -/
  | gives
  /-- `release` returns -/
  | moved
deriving DecidableEq, Repr

/-- A ring of `n` slots, the kernel and user space. -/
structure State (n : ℕ) where
  slots : Fin n → Slot
  kernel : Fin n
  currentFrame : Fin n
  drops : BitVec 64
  pc : Pc
  frame : Option RxFrame
  published : List Arrival
  released : List (RxFrame × Bytes)

variable {n : ℕ}

/-- `(k + 1) % total_frames_`. -/
def next (k : Fin n) : Fin n := ⟨(k.val + 1) % n, Nat.mod_lt _ k.pos⟩

/-- `frames_[k]`: the slots lie one after another. -/
def frames (k : Fin n) : ℕ := k.val * kFrameSize

namespace State

/-- The ring after the constructor; the kernel owns every slot. -/
def init [NeZero n] (slots : Fin n → Slot) : State n where
  slots := fun k => { slots k with tpStatus := tpStatusKernel }
  kernel := 0
  currentFrame := 0
  drops := 0
  pc := .idle
  frame := none
  published := []
  released := []

/-- The slot at `current_frame_`. -/
def hdr (s : State n) : Slot := s.slots s.currentFrame

/-- The test of `receive`. -/
def ready (s : State n) : Bool := s.hdr.tpStatus &&& tpStatusUser ≠ 0

/-- The kernel publishes a frame. -/
def publish (s : State n) (a : Arrival) : State n :=
  { s with
    slots := Function.update s.slots s.kernel a.slot
    kernel := next s.kernel
    published := s.published ++ [a] }

/-- `release`: the status word. -/
def giveBack (s : State n) (f : RxFrame) : State n :=
  { s with
    slots := Function.update s.slots s.currentFrame { s.hdr with tpStatus := tpStatusKernel }
    pc := .advance
    frame := none
    released := s.released ++ [(f, s.hdr.bytes)] }

/-- A step of the kernel, with the frame that it publishes, if it does not drop it. -/
inductive Kernel : Option Arrival → State n → State n → Prop where
  | publish {s} (a : Arrival) :
    (s.slots s.kernel).tpStatus = tpStatusKernel →
    Kernel (some a) s (s.publish a)
  | drop {s} :
    (s.slots s.kernel).tpStatus ≠ tpStatusKernel →
    Kernel none s s

/-- A step of user space. -/
inductive User : Act → State n → State n → Prop where
  | receiveFalse {s} :
    s.pc = .idle →
    s.ready = false →
    User .missed s s
  | receive {s} :
    s.pc = .idle →
    s.ready = true →
    User .reads s { s with pc := .readMac s.hdr.tpStatus }
  | readMac {s status} :
    s.pc = .readMac status →
    User .reads s { s with
      drops := if status &&& tpStatusLosing ≠ 0 then s.drops + 1 else s.drops
      pc := .readLen (frames s.currentFrame + s.hdr.tpMac.toNat) }
  | readLen {s data} :
    s.pc = .readLen data →
    User .reads s { s with pc := .readSnaplen data s.hdr.tpLen }
  | readSnaplen {s data len} :
    s.pc = .readSnaplen data len →
    User (.got { data := data, len := len, capturedLen := s.hdr.tpSnaplen }) s { s with
      pc := .idle
      frame := some { data := data, len := len, capturedLen := s.hdr.tpSnaplen } }
  | release {s f} :
    s.pc = .idle →
    s.frame = some f →
    User .gives s (s.giveBack f)
  | advance {s} :
    s.pc = .advance →
    User .moved s { s with pc := .idle, currentFrame := next s.currentFrame }

/-- A step of the kernel or of user space. -/
inductive Step : State n → State n → Prop where
  | kernel {s s' a} : Kernel a s s' → Step s s'
  | user {s s' act} : User act s s' → Step s s'

/-- Any number of steps. -/
abbrev Steps : State n → State n → Prop := Relation.ReflTransGen Step

section User

variable {s s' : State n}

/-- `receive` reads the ring and moves nothing. -/
lemma User.reads (st : User .reads s s') :
    s'.published = s.published ∧ s'.released = s.released ∧ s'.pc ≠ .advance := by
  cases st with
  | _ => exact ⟨rfl, rfl, by simp⟩

/-- A call of `receive` that returns `true` leaves the frame behind. -/
lemma User.got {f : RxFrame} (st : User (.got f) s s') :
    s'.published = s.published ∧ s'.released = s.released ∧ s'.pc = .idle ∧ s'.frame = some f := by
  cases st with
  | readSnaplen _ => exact ⟨rfl, rfl, rfl, rfl⟩

/-- `release` gives back one frame. -/
lemma User.gives (st : User .gives s s') :
    s.pc = .idle ∧ s'.published = s.published ∧ s'.released.length = s.released.length + 1 ∧
      s'.pc = .advance := by
  cases st with
  | release idle _ => exact ⟨idle, rfl, List.length_append, rfl⟩

end User

end State

/-! ## The invariant -/

section Cells

variable (n) [NeZero n]

/-- The slot of the `i`-th published frame. -/
def cell (i : ℕ) : Fin n := Fin.ofNat n i

/-- The slots are filled in turn. -/
lemma turn : Ring.Turn (cell n) n := Ring.Turn.of_mod fun _ _ e => congrArg Fin.val e

/-- The next slot is that of the next frame. -/
lemma next_cell (i : ℕ) : next (cell n i) = cell n (i + 1) := Fin.ext (Nat.mod_add_mod i n 1)

end Cells

variable [NeZero n]

/-- The `i`-th published frame as `receive` returns it. -/
def Arrival.rx (a : Arrival) (n : ℕ) [NeZero n] (i : ℕ) : RxFrame where
  data := frames (cell n i) + a.mac.toNat
  len := a.len
  capturedLen := a.snaplen

/-- What user space knows of the frame at `current_frame_`. -/
def Knows (n : ℕ) [NeZero n] (a : Arrival) (i : ℕ) : Pc → Prop
  | .readMac status => status = a.slot.tpStatus
  | .readLen data => data = (a.rx n i).data
  | .readSnaplen data len => data = (a.rx n i).data ∧ len = a.len
  | _ => True

/-- Whether user space is in a call of `receive` that will succeed. -/
def Pc.reading : Pc → Prop
  | .readMac _ => True
  | .readLen _ => True
  | .readSnaplen _ _ => True
  | _ => False

/-- What holds of the ring between any two steps. -/
structure Inv (s : State n) : Prop where
  ring : Ring.Holds (cell n) n s.slots (s.published.map Arrival.slot) s.released.length
  free : ∀ k, (∀ i, s.released.length ≤ i → i < s.published.length → cell n i ≠ k) →
    (s.slots k).tpStatus = tpStatusKernel
  kernel : s.kernel = cell n s.published.length
  current : s.pc ≠ .advance → s.currentFrame = cell n s.released.length
  moving : s.pc = .advance → next s.currentFrame = cell n s.released.length ∧ s.frame = none
  reading : s.pc.reading → ∃ a : Arrival, s.published[s.released.length]? = some a ∧
    Knows n a s.released.length s.pc
  frame : ∀ f, s.frame = some f → ∃ a : Arrival, s.published[s.released.length]? = some a ∧
    f = a.rx n s.released.length
  seen : ∀ i x, s.released[i]? = some x → ∃ a : Arrival, s.published[i]? = some a ∧ x = (a.rx n i, a.bytes)

section Bits

omit [NeZero n]

/-- A published slot has the user bit. -/
lemma user_bit (flags : BitVec 32) : (tpStatusUser ||| flags) &&& tpStatusUser ≠ 0 := by
  intro e
  have bit := congrArg (fun x => x.getLsbD 0) e
  simp [tpStatusUser] at bit

/-- So it is not the kernel's. -/
lemma Arrival.status_ne (a : Arrival) : a.slot.tpStatus ≠ tpStatusKernel := by
  intro e
  apply user_bit a.flags
  rw [show tpStatusUser ||| a.flags = tpStatusKernel from e]
  rfl

end Bits

namespace Inv

variable {s s' : State n}

/-- Every slot is the kernel's. -/
lemma init (slots : Fin n → Slot) : Inv (State.init slots) where
  ring := .nil _ _ _
  free := fun _ _ => rfl
  kernel := rfl
  current := fun _ => rfl
  moving := by
    intro e
    cases e
  reading := fun r => r.elim
  frame := by
    intro f e
    cases e
  seen := by
    intro i x get
    cases get

/-- At most `n` published frames are not released. -/
lemma bounds (h : Inv s) : s.released.length ≤ s.published.length ∧
    s.published.length ≤ s.released.length + n := by
  have low := h.ring.low
  have high := h.ring.high
  rw [List.length_map] at low high
  exact ⟨low, high⟩

/-- The slot of a frame that is published and not released. -/
lemma slot (h : Inv s) {i : ℕ} {a : Arrival} (le : s.released.length ≤ i)
    (get : s.published[i]? = some a) : s.slots (cell n i) = a.slot := by
  apply h.ring.live i a.slot le
  rw [List.getElem?_map, get]
  rfl

/-- The slots with the user bit are those of the frames that are published and not released. -/
lemma user_iff (h : Inv s) (k : Fin n) : (s.slots k).tpStatus &&& tpStatusUser ≠ 0 ↔
    ∃ i, s.released.length ≤ i ∧ i < s.published.length ∧ cell n i = k := by
  constructor
  · intro bit
    by_contra none
    apply bit
    rw [h.free k fun i le lt e => none ⟨i, le, lt, e⟩]
    rfl
  · rintro ⟨i, le, lt, rfl⟩
    rw [h.slot le (List.getElem?_eq_getElem lt)]
    exact user_bit _

/-- The kernel finds its slot free only if there is room. -/
lemma room (h : Inv s) (free : (s.slots s.kernel).tpStatus = tpStatusKernel) :
    s.published.length < s.released.length + n := by
  obtain ⟨low, high⟩ := h.bounds
  by_contra full
  have len : s.published.length = s.released.length + n := by omega
  have pos := Nat.pos_of_ne_zero (NeZero.ne n)
  have lt : s.released.length < s.published.length := by omega
  -- the ring has come round to the oldest frame that user space still has
  have same : cell n s.published.length = cell n s.released.length := by
    rw [len]
    exact Fin.ext (Nat.add_mod_right _ _)
  rw [h.kernel, same, h.slot le_rfl (List.getElem?_eq_getElem lt)] at free
  exact Arrival.status_ne _ free

/-- The kernel fills the next slot. -/
lemma publish (h : Inv s) (a : Arrival) (free : (s.slots s.kernel).tpStatus = tpStatusKernel) :
    Inv (s.publish a) := by
  have room := h.room free
  refine ⟨?_, ?_, ?_, h.current, h.moving, ?_, ?_, ?_⟩
  · have room' : (s.published.map Arrival.slot).length < s.released.length + n := by
      rw [List.length_map]
      exact room
    have pushed := (h.ring.write (turn n) room' a.slot).push room' (Function.update_self _ _ _)
    rw [List.length_map, ← h.kernel] at pushed
    show Ring.Holds (cell n) n (Function.update s.slots s.kernel a.slot)
      ((s.published ++ [a]).map Arrival.slot) s.released.length
    rw [List.map_append]
    exact pushed
  · intro k none
    have others : ∀ i, s.released.length ≤ i → i < s.published.length + 1 → cell n i ≠ k := by
      intro i le lt
      exact none i le (by rw [State.publish, List.length_append]; exact lt)
    have ne : k ≠ s.kernel := by
      rw [h.kernel]
      exact (others _ h.bounds.1 (Nat.lt_succ_self _)).symm
    show (Function.update s.slots s.kernel a.slot k).tpStatus = tpStatusKernel
    rw [Function.update_of_ne ne]
    exact h.free k fun i le lt => others i le (by omega)
  · show next s.kernel = cell n (s.published ++ [a]).length
    rw [h.kernel, next_cell, List.length_append]
    rfl
  · intro r
    obtain ⟨b, get, knows⟩ := h.reading r
    exact ⟨b, Ring.getElem?_append_of_some get, knows⟩
  · intro f e
    obtain ⟨b, get, eq⟩ := h.frame f e
    exact ⟨b, Ring.getElem?_append_of_some get, eq⟩
  · intro i x get
    obtain ⟨b, get', eq⟩ := h.seen i x get
    exact ⟨b, Ring.getElem?_append_of_some get', eq⟩

/-- What user space reads of the slot at `current_frame_`. -/
lemma hdr (h : Inv s) (still : s.pc ≠ .advance) {a : Arrival}
    (get : s.published[s.released.length]? = some a) : s.hdr = a.slot := by
  rw [State.hdr, h.current still]
  exact h.slot le_rfl get

/-- `release` gives the slot of the current frame back. -/
lemma giveBack (h : Inv s) {f : RxFrame} (idle : s.pc = .idle) (held : s.frame = some f) :
    Inv (s.giveBack f) := by
  have still : s.pc ≠ .advance := by simp [idle]
  obtain ⟨a, get, rfl⟩ := h.frame f held
  have lt := (List.getElem?_eq_some_iff.mp get).1
  have cur := h.current still
  have hdr := h.hdr still get
  have len : (s.giveBack (a.rx n s.released.length)).released.length = s.released.length + 1 := by
    rw [State.giveBack, List.length_append]
    rfl
  refine ⟨?_, ?_, h.kernel, fun ne => absurd rfl ne, ?_, fun r => r.elim, ?_, ?_⟩
  · rw [len]
    apply h.ring.pop (turn n)
    · rw [List.length_map]
      exact lt
    · intro k ne
      rw [← cur] at ne
      exact Function.update_of_ne ne _ _
  · intro k none
    show (Function.update s.slots s.currentFrame _ k).tpStatus = tpStatusKernel
    by_cases hk : k = s.currentFrame
    · rw [hk, Function.update_self]
    · -- any other slot without a frame had none before
      rw [Function.update_of_ne hk]
      apply h.free k
      intro i le lt'
      rcases Nat.eq_or_lt_of_le le with rfl | more
      · rw [← cur]
        exact Ne.symm hk
      · exact none i (by rw [len]; exact more) lt'
  · intro _
    refine ⟨?_, rfl⟩
    show next s.currentFrame = cell n (s.released ++ [_]).length
    rw [cur, next_cell, List.length_append]
    rfl
  · intro f e
    cases e
  · intro i x got
    rcases Ring.getElem?_concat_cases got with ⟨_, got⟩ | ⟨rfl, rfl⟩
    · exact h.seen i x got
    · exact ⟨a, get, by rw [hdr]; rfl⟩

/-- A step of `receive` that moves on within the call. -/
lemma goto (h : Inv s) {p : Pc} (drops : BitVec 64) (still : s.pc ≠ .advance) (still' : p ≠ .advance)
    (knows : ∀ a : Arrival, s.published[s.released.length]? = some a → Knows n a s.released.length p)
    (there : ∃ a : Arrival, s.published[s.released.length]? = some a) :
    Inv { s with drops := drops, pc := p } := by
  obtain ⟨a, get⟩ := there
  exact ⟨h.ring, h.free, h.kernel, fun _ => h.current still, fun e => absurd e still',
    fun _ => ⟨a, get, knows a get⟩, h.frame, h.seen⟩

/-- `receive` succeeds exactly if a published frame is not released. -/
lemma ready_iff (h : Inv s) (still : s.pc ≠ .advance) :
    s.ready = true ↔ s.released.length < s.published.length := by
  rw [State.ready, decide_eq_true_eq, State.hdr, h.current still, h.user_iff]
  constructor
  · rintro ⟨i, le, lt, _⟩
    exact lt_of_le_of_lt le lt
  · intro lt
    exact ⟨_, le_rfl, lt, rfl⟩

/-- `receive` returns the first frame that is not released. -/
lemma got (h : Inv s) {f : RxFrame} (st : State.User (.got f) s s') :
    ∃ a : Arrival, s.published[s.released.length]? = some a ∧ f = a.rx n s.released.length := by
  cases st with
  | readSnaplen here =>
    have still : s.pc ≠ .advance := by simp [here]
    obtain ⟨a, get, knows⟩ := h.reading (by rw [here]; trivial)
    rw [here] at knows
    obtain ⟨rfl, rfl⟩ := knows
    exact ⟨a, get, by rw [h.hdr still get]; rfl⟩

/-- A call of `receive` returns `false` if no frame is left, and goes on otherwise. -/
lemma receive_iff (h : Inv s) (idle : s.pc = .idle) :
    ((∃ s', State.User .missed s s') ↔ s.released.length = s.published.length) ∧
    ((∃ s', State.User .reads s s') ↔ s.released.length < s.published.length) := by
  have ready := h.ready_iff (by simp [idle])
  have le := h.bounds.1
  constructor
  · constructor
    · rintro ⟨s', st⟩
      cases st with
      | receiveFalse _ no =>
        have not : ¬ s.released.length < s.published.length := by
          rw [← ready, no]
          exact Bool.false_ne_true
        omega
    · intro all
      have no : s.ready = false := by
        rw [← Bool.not_eq_true, ready]
        omega
      exact ⟨s, .receiveFalse idle no⟩
  · constructor
    · rintro ⟨s', st⟩
      cases st with
      | receive _ yes => exact ready.mp yes
      | readMac here | readLen here =>
        rw [idle] at here
        cases here
    · exact fun lt => ⟨_, .receive idle (ready.mpr lt)⟩

omit [NeZero n] in
/-- A call that has gone on returns `true`. -/
lemma reads_or_got {act : Act} (reading : s.pc.reading) (st : State.User act s s') :
    s'.pc.reading ∨ ∃ f, act = .got f := by
  cases st with
  | readMac _ => exact .inl trivial
  | readLen _ => exact .inl trivial
  | readSnaplen _ => exact .inr ⟨_, rfl⟩
  | receiveFalse here _ | receive here _ | release here _ | advance here =>
    rw [here] at reading
    exact reading.elim

/-- The kernel keeps the invariant. -/
lemma kernel_step (h : Inv s) {a : Option Arrival} (st : State.Kernel a s s') : Inv s' := by
  cases st with
  | publish a free => exact h.publish a free
  | drop _ => exact h

/-- So does user space. -/
lemma user_step (h : Inv s) {act : Act} (st : State.User act s s') : Inv s' := by
  cases st with
  | receiveFalse _ _ => exact h
  | receive idle ready =>
    have still : s.pc ≠ .advance := by simp [idle]
    have lt := (h.ready_iff still).mp ready
    refine h.goto s.drops still (by simp) ?_ ⟨_, List.getElem?_eq_getElem lt⟩
    intro a get
    rw [h.hdr still get]
    rfl
  | readMac here =>
    have still : s.pc ≠ .advance := by simp [here]
    obtain ⟨a, get, _⟩ := h.reading (by rw [here]; trivial)
    refine h.goto _ still (by simp) ?_ ⟨a, get⟩
    intro a get
    rw [h.hdr still get, h.current still]
    rfl
  | @readLen _ data here =>
    have still : s.pc ≠ .advance := by simp [here]
    obtain ⟨a, get, knows⟩ := h.reading (by rw [here]; trivial)
    refine h.goto s.drops still (by simp) ?_ ⟨a, get⟩
    intro b get'
    obtain rfl := Option.some.inj (get.symm.trans get')
    rw [here] at knows
    rw [h.hdr still get]
    exact ⟨knows, rfl⟩
  | readSnaplen here =>
    have still : s.pc ≠ .advance := by simp [here]
    obtain ⟨a, get, eq⟩ := h.got (.readSnaplen here)
    refine ⟨h.ring, h.free, h.kernel, fun _ => h.current still, ?_, fun r => r.elim, ?_, h.seen⟩
    · intro e
      cases e
    · intro f e
      obtain rfl := Option.some.inj e
      exact ⟨a, get, eq⟩
  | release idle held => exact h.giveBack idle held
  | advance here =>
    obtain ⟨cur, none⟩ := h.moving here
    refine ⟨h.ring, h.free, h.kernel, fun _ => cur, ?_, fun r => r.elim, ?_, h.seen⟩
    · intro e
      cases e
    · intro f e
      cases none.symm.trans e

/-- Every step keeps the invariant. -/
lemma step (h : Inv s) (st : State.Step s s') : Inv s' := by
  cases st with
  | kernel st => exact h.kernel_step st
  | user st => exact h.user_step st

/-- The invariant holds in every run. -/
lemma steps {slots : Fin n → Slot} (run : State.Steps (State.init slots) s) : Inv s := by
  induction run with
  | refl => exact init slots
  | tail _ st ih => exact ih.step st

end Inv

/-- The ring is consumed exactly. In every state of every run, for every number of slots: the frames
that user space has released, as it saw them, are a prefix of the frames published; at most `n`
published frames are not released; and the slots with the user bit are exactly theirs. A call of `receive`
returns `false` exactly if there is none, and otherwise goes on until it returns `true`, with the first
one. -/
theorem frames_consumed_in_order (n : ℕ) [NeZero n] (slots : Fin n → Slot) (s : State n)
    (run : State.Steps (State.init slots) s) :
    s.released <+: s.published.mapIdx (fun i a => (a.rx n i, a.bytes)) ∧
    s.released.length ≤ s.published.length ∧ s.published.length ≤ s.released.length + n ∧
    (∀ k, (s.slots k).tpStatus &&& tpStatusUser ≠ 0 ↔
      ∃ i, s.released.length ≤ i ∧ i < s.published.length ∧ i % n = k) ∧
    (s.pc = .idle →
      ((∃ s', State.User .missed s s') ↔ s.released.length = s.published.length) ∧
      ((∃ s', State.User .reads s s') ↔ s.released.length < s.published.length)) ∧
    (∀ act s', s.pc.reading → State.User act s s' → s'.pc.reading ∨ ∃ f, act = .got f) ∧
    ∀ f s', State.User (.got f) s s' →
      ∃ a, s.published[s.released.length]? = some a ∧ f = a.rx n s.released.length := by
  have h := Inv.steps run
  refine ⟨?_, h.bounds.1, h.bounds.2, ?_, h.receive_iff, fun act s' => Inv.reads_or_got,
    fun f s' => h.got⟩
  · apply List.prefix_iff_getElem?.mpr
    intro i lt
    obtain ⟨a, get, eq⟩ := h.seen i _ (List.getElem?_eq_getElem lt)
    rw [List.getElem?_mapIdx, get, eq]
    rfl
  · intro k
    rw [h.user_iff]
    exact exists_congr fun i => and_congr_right fun _ => and_congr_right fun _ => Fin.ext_iff

/-- A frame of two bytes. -/
def Arrival.short : Arrival where
  flags := 0
  len := 60
  snaplen := 2
  mac := 66
  bytes := [1, 2]

/-- On a ring of one slot, a frame is published, received twice and released. -/
theorem short_frame_consumed : ∃ s : State 1, s.released = [({ data := 66, len := 60, capturedLen := 2 }, [1, 2])] ∧
    s.released <+: s.published.mapIdx (fun i a => (a.rx 1 i, a.bytes)) := by
  have read : ∀ s : State 1, s.pc = .idle → s.ready = true → State.Steps s
      { s with
        drops := if s.hdr.tpStatus &&& tpStatusLosing ≠ 0 then s.drops + 1 else s.drops
        frame := some
          { data := frames s.currentFrame + s.hdr.tpMac.toNat
            len := s.hdr.tpLen
            capturedLen := s.hdr.tpSnaplen } } := by
    rintro ⟨slots, kernel, current, drops, pc, frame, published, released⟩ idle ready
    obtain rfl : pc = .idle := idle
    exact (((Relation.ReflTransGen.single (.user (.receive rfl ready))).tail (.user (.readMac rfl))).tail
      (.user (.readLen rfl))).tail (.user (.readSnaplen rfl))
  have arrived : State.Steps (State.init fun _ : Fin 1 => ⟨0, 0, 0, 0, []⟩) _ :=
    .single (.kernel (.publish .short rfl))
  have once := arrived.trans (read _ rfl (by decide))
  have twice := once.trans (read _ rfl (by decide))
  have run := (twice.tail (.user (.release rfl rfl))).tail (.user (.advance rfl))
  exact ⟨_, rfl, (frames_consumed_in_order 1 _ _ run).1⟩

end UxNet.PacketRing
