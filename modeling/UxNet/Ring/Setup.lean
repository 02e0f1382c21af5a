import UxNet.Lib.Throw
import UxNet.Ring.PacketRing

/-!
# Setting up a packet ring

The constructor, `cleanup` and `set_busy_poll` of `packet_ring.cpp`, and the ways in which the programs
hold a ring: on the stack (`capture.cpp`, `multiqueue_capture.cpp`, `bench_rx.cpp`), where an exception
runs the destructor, and behind a pointer (`bench1_throughput` and `bench4_e2e` of
`final_benchmark.cpp`), where it does not.

The kernel keeps the descriptors and mappings of the process. It sets up a ring only if the number of
frames asked for is the number its blocks have room for, and lays the frames out block by block
(`TpacketReq.slotAt`); it maps a ring only as a whole. Otherwise what a call answers is arbitrary.
-/

namespace UxNet.PacketRing

/-- `kBlockSize`. -/
def kBlockSize : ℕ := 1 <<< 22

/-- `kFramesPerBlock`. -/
def kFramesPerBlock : ℕ := kBlockSize / kFrameSize

/-- `IFNAMSIZ`. -/
def ifNamSiz : ℕ := 16

/-- `EINVAL`. -/
def einval : ℕ := 22

/-! ## The kernel -/

/-- `struct tpacket_req`. -/
structure TpacketReq where
  blockSize : BitVec 32
  blockNr : BitVec 32
  frameSize : BitVec 32
  frameNr : BitVec 32
deriving DecidableEq, Repr

namespace TpacketReq

/-- The frames that a block has room for. -/
def framesPerBlock (q : TpacketReq) : ℕ := q.blockSize.toNat / q.frameSize.toNat

/-- The frames asked for are those of the blocks. -/
def Consistent (q : TpacketReq) : Prop := q.framesPerBlock * q.blockNr.toNat = q.frameNr.toNat

instance (q : TpacketReq) : Decidable q.Consistent := inferInstanceAs (Decidable (_ = _))

/-- Where the kernel has frame `i`, counted from the start of the mapping. -/
def slotAt (q : TpacketReq) (i : ℕ) : ℕ :=
  i / q.framesPerBlock * q.blockSize.toNat + i % q.framesPerBlock * q.frameSize.toNat

/-- The bytes of all blocks. -/
def bytes (q : TpacketReq) : ℕ := q.blockNr.toNat * q.blockSize.toNat

end TpacketReq

/-- A packet socket; `TPACKET_V2` is version 1. -/
structure Socket where
  version : ℕ
  ring : Option TpacketReq
  ifindex : Option ℕ
deriving DecidableEq, Repr

/-- A socket that was just opened. -/
def Socket.new : Socket where
  version := 0
  ring := none
  ifindex := none

/-- The descriptors of a process, and the length of the mapping at each address. -/
structure System where
  fds : ℕ → Option Socket
  maps : ℕ → Option ℕ

namespace System

/-- Mappings do not overlap. -/
def Apart (sys : System) : Prop :=
  ∀ base base' len len', base ≠ base' → sys.maps base = some len → sys.maps base' = some len' →
    base + len ≤ base' ∨ base' + len' ≤ base

/-- `::close`. -/
def close (sys : System) (fd : ℕ) : System := { sys with fds := Function.update sys.fds fd none }

/-- A socket option or address is set. -/
def set (sys : System) (fd : ℕ) (f : Socket → Socket) : System :=
  { sys with fds := Function.update sys.fds fd ((sys.fds fd).map f) }

/-- `::munmap` of a whole mapping. -/
def munmap (sys : System) (base len : ℕ) : System :=
  if sys.maps base = some len then { sys with maps := Function.update sys.maps base none } else sys

end System

/-- What the calls of one construction answer, `errno` in case of an error. `vector` says whether
`frames_` gets its memory. -/
structure Answers where
  socket : Except ℕ ℕ
  ioctl : List Char → Except ℕ ℕ
  version : Except ℕ Unit
  rxRing : Except ℕ Unit
  mmap : Except ℕ ℕ
  vector : Bool
  bind : Except ℕ Unit
  busyPoll : Except ℕ Unit
  strerror : ℕ → String

/-- The kernel refuses a request with a wrong number of frames. -/
def Answers.grant (k : Answers) (q : TpacketReq) : Except ℕ Unit :=
  if q.Consistent then k.rxRing else .error einval

/-- The kernel maps a ring as a whole. -/
def Answers.map (k : Answers) (q : TpacketReq) (len : ℕ) : Except ℕ ℕ :=
  if len = q.bytes then k.mmap else .error einval

/-! ## The constructor -/

/-- The members of a `PacketRing`; a null pointer is `none`. -/
structure Members where
  fd : ℤ
  ring : Option ℕ
  ringBytes : BitVec 64
  frames : List ℕ
  totalFrames : BitVec 64
  currentFrame : BitVec 64
  drops : BitVec 64
deriving DecidableEq, Repr

/-- The members before the body of the constructor. -/
def Members.new : Members where
  fd := -1
  ring := none
  ringBytes := 0
  frames := []
  totalFrames := 0
  currentFrame := 0
  drops := 0

/-- The process and the ring that is being built. -/
structure Work where
  sys : System
  this : Members

/-- What is thrown. -/
inductive Error where
  | runtimeError (what : String)
  | badAlloc
deriving DecidableEq, Repr

/-- A part of the constructor. -/
abbrev Build := Throw Error Work

/-- `PacketRing::cleanup`. -/
def Work.cleanup (w : Work) : Work :=
  let unmapped : Work := match w.this.ring with
    | some base =>
      { sys := w.sys.munmap base w.this.ringBytes.toNat, this := { w.this with ring := none } }
    | none => w
  if 0 ≤ unmapped.this.fd then
    { sys := unmapped.sys.close unmapped.this.fd.toNat, this := { unmapped.this with fd := -1 } }
  else unmapped

section Construct

variable (k : Answers) (iface : List Char) (numBlocks : BitVec 32)

/-- `if (call < 0) throw_errno(what);` -/
def check {α : Type} (what : String) : Except ℕ α → Build α
  | .ok a => pure a
  | .error errno => throw (.runtimeError (what ++ ": " ++ k.strerror errno))

/-- `fd_ = ::socket(...)`. -/
def Work.opened (w : Work) : Except ℕ ℕ → Work
  | .ok fd =>
    { sys := { w.sys with fds := Function.update w.sys.fds fd (some .new) }
      this := { w.this with fd := fd } }
  | .error _ => { w with this := { w.this with fd := -1 } }

/-- A call that sets something of the socket at `fd_`. -/
def Work.set (w : Work) (f : Socket → Socket) : Work := { w with sys := w.sys.set w.this.fd.toNat f }

/-- `total_frames_`. -/
def totalFramesOf : BitVec 64 := numBlocks.signExtend 64 * BitVec.ofNat 64 kFramesPerBlock

/-- `ring_bytes_`. -/
def ringBytesOf : BitVec 64 := numBlocks.signExtend 64 * BitVec.ofNat 64 kBlockSize

/-- `req`. -/
def reqOf : TpacketReq where
  blockSize := BitVec.ofNat 32 kBlockSize
  blockNr := numBlocks
  frameSize := BitVec.ofNat 32 kFrameSize
  frameNr := (totalFramesOf numBlocks).setWidth 32

/-- `ring_ = ::mmap(...)`, and the null pointer if it failed. -/
def Work.mapped (w : Work) : Except ℕ ℕ → Work
  | .ok base =>
    { sys := { w.sys with maps := Function.update w.sys.maps base (some w.this.ringBytes.toNat) }
      this := { w.this with ring := some base } }
  | .error _ => { w with this := { w.this with ring := none } }

/-- The loops of step 6. -/
def layOut (ring : ℕ) : List ℕ :=
  (List.range numBlocks.toNat).foldl (fun frames b =>
    (List.range kFramesPerBlock).foldl (fun frames f =>
      frames ++ [ring + (BitVec.ofNat 64 b * BitVec.ofNat 64 kBlockSize).toNat
        + (BitVec.ofNat 32 f * BitVec.ofNat 32 kFrameSize).toNat]) frames) []

/-- Step 1: the socket. -/
def openSocket : Build Unit := do
  modify fun w => w.opened k.socket
  let _ ← check k "socket(AF_PACKET, SOCK_RAW)" k.socket
  pure ()

/-- Step 2: the index of the interface; `ifr_name` has room for `IFNAMSIZ - 1` characters. -/
def resolve : Build ℕ := check k "ioctl(SIOCGIFINDEX)" (k.ioctl (iface.take (ifNamSiz - 1)))

/-- Step 3: the version of the layout. -/
def selectVersion : Build Unit := do
  check k "setsockopt(PACKET_VERSION, TPACKET_V2)" k.version
  modify fun w => w.set fun s => { s with version := 1 }

/-- Step 4: the ring. -/
def installRing : Build Unit := do
  modify fun w => { w with this := { w.this with totalFrames := totalFramesOf numBlocks } }
  check k "setsockopt(PACKET_RX_RING)" (k.grant (reqOf numBlocks))
  modify fun w => w.set fun s => { s with ring := some (reqOf numBlocks) }

/-- Step 5: the mapping. -/
def mapRing : Build Unit := do
  modify fun w => { w with this := { w.this with ringBytes := ringBytesOf numBlocks } }
  modify fun w => w.mapped (k.map (reqOf numBlocks) (ringBytesOf numBlocks).toNat)
  let _ ← check k "mmap(PACKET_RX_RING)" (k.map (reqOf numBlocks) (ringBytesOf numBlocks).toNat)
  pure ()

/-- Step 6: the slots; `reserve` gets all the memory that is needed. -/
def findSlots : Build Unit :=
  if k.vector then
    modify fun w => { w with this := { w.this with frames := layOut numBlocks (w.this.ring.getD 0) } }
  else throw .badAlloc

/-- Step 7: from here on the kernel fills the ring. -/
def bindTo (ifindex : ℕ) : Build Unit := do
  check k "bind(AF_PACKET)" k.bind
  modify fun w => w.set fun s => { s with ifindex := some ifindex }

/-- The block that `cleanup` guards. -/
def setup : Build Unit := do
  openSocket k
  let ifindex ← resolve k iface
  selectVersion k
  installRing k numBlocks
  mapRing k numBlocks
  findSlots k numBlocks
  bindTo k ifindex

/-- `PacketRing::PacketRing`. -/
def construct : Build Unit :=
  if numBlocks.toInt ≤ 0 then
    throw (.runtimeError "PacketRing: num_blocks must be positive")
  else if ifNamSiz ≤ iface.length then
    throw (.runtimeError ("PacketRing: interface name too long: " ++ String.ofList iface))
  else Throw.guard (setup k iface numBlocks) Work.cleanup

/-- `PacketRing::set_busy_poll`. -/
def setBusyPoll : Build Unit := check k "setsockopt(SO_BUSY_POLL)" k.busyPoll

/-- `PacketRing ring(iface, n); ring.set_busy_poll(50);` on the stack: an exception of the second call
destroys the ring. -/
def openOnStack : Build Unit := do
  construct k iface numBlocks
  Throw.guard (setBusyPoll k) Work.cleanup

/-- `ring = new PacketRing(iface, n); ring->set_busy_poll(50);` behind a pointer that the handler does not
look at. -/
def openBehindPointer : Build Unit := do
  construct k iface numBlocks
  setBusyPoll k

/-- The answers with which a construction goes through: each call succeeds, and the kernel takes the request
as it stands. -/
structure Answers.Grants : Prop where
  positive : 0 < numBlocks.toInt
  short : iface.length < ifNamSiz
  socket : ∃ fd, k.socket = .ok fd
  ioctl : ∃ ifindex, k.ioctl (iface.take (ifNamSiz - 1)) = .ok ifindex
  version : k.version = .ok ()
  rxRing : k.grant (reqOf numBlocks) = .ok ()
  mmap : ∃ base, k.map (reqOf numBlocks) (ringBytesOf numBlocks).toNat = .ok base
  vector : k.vector = true
  bind : k.bind = .ok ()

end Construct

/-! ## When a construction returns -/

section Returns

open Throw (Returns)

variable {k : Answers} {iface : List Char} {numBlocks : BitVec 32}

/-- A call that is checked goes through if it succeeds. -/
lemma check_returns {α : Type} (what : String) (answer : Except ℕ α) (w : Work) :
    Returns (check k what answer) w ↔ ∃ a, answer = .ok a := by
  cases answer with
  | ok a => exact iff_of_true (Returns.ret a) ⟨a, rfl⟩
  | error errno => exact iff_of_false (Returns.not_raise _) nofun

/-- A change of the state before a program does not matter for whether it returns. -/
lemma modify_returns {α : Type} {f : Work → Work} {x : Unit → Build α} {p : Prop}
    (rest : ∀ w, (x ()).Returns w ↔ p) (w : Work) : Returns (modify f >>= x) w ↔ p := by
  rw [Returns.seq_iff (fun w => iff_of_true (Returns.update f) trivial) (fun _ => rest), true_and]

/-- A check with nothing but a change of the state after it. -/
lemma check_then_returns {α : Type} {what : String} {answer : Except ℕ α} {x : α → Build Unit}
    (rest : ∀ a w, (x a).Returns w) (w : Work) :
    Returns (check k what answer >>= x) w ↔ ∃ a, answer = .ok a := by
  rw [Returns.seq_iff (check_returns what answer) (fun a w => iff_of_true (rest a w) trivial), and_true]

/-- A call whose success has no value. -/
lemma exists_unit_iff {answer : Except ℕ Unit} : (∃ a, answer = .ok a) ↔ answer = .ok () :=
  ⟨fun ⟨_, e⟩ => e, fun e => ⟨(), e⟩⟩

/-- The guarded block goes through if each of its calls does. -/
lemma setup_returns (w : Work) : Returns (setup k iface numBlocks) w ↔
    (∃ fd, k.socket = .ok fd) ∧ (∃ ifindex, k.ioctl (iface.take (ifNamSiz - 1)) = .ok ifindex) ∧
      k.version = .ok () ∧ k.grant (reqOf numBlocks) = .ok () ∧
      (∃ base, k.map (reqOf numBlocks) (ringBytesOf numBlocks).toNat = .ok base) ∧ k.vector = true ∧
      k.bind = .ok () := by
  have bind : ∀ ifindex w, Returns (bindTo k ifindex) w ↔ k.bind = .ok () := by
    intro ifindex w
    rw [bindTo, check_then_returns fun _ w => Returns.update _, exists_unit_iff]
  have slots : ∀ w, Returns (findSlots k numBlocks) w ↔ k.vector = true := by
    intro w
    rw [findSlots]
    split
    · rename_i room
      exact iff_of_true (Returns.update _) room
    · rename_i none
      exact iff_of_false (Returns.not_raise _) none
  have map : ∀ w, Returns (mapRing k numBlocks) w ↔
      ∃ base, k.map (reqOf numBlocks) (ringBytesOf numBlocks).toNat = .ok base :=
    modify_returns <| modify_returns <| check_then_returns fun _ w => Returns.ret _
  have install : ∀ w, Returns (installRing k numBlocks) w ↔ k.grant (reqOf numBlocks) = .ok () := by
    intro w
    rw [← exists_unit_iff]
    exact modify_returns (check_then_returns fun _ w => Returns.update _) w
  have version : ∀ w, Returns (selectVersion k) w ↔ k.version = .ok () := by
    intro w
    rw [selectVersion, check_then_returns fun _ w => Returns.update _, exists_unit_iff]
  have socket : ∀ w, Returns (openSocket k) w ↔ ∃ fd, k.socket = .ok fd :=
    modify_returns <| check_then_returns fun _ w => Returns.ret _
  rw [setup]
  refine Returns.seq_iff socket (fun _ => Returns.seq_iff (check_returns _ _) fun ifindex => ?_) w
  refine Returns.seq_iff version fun _ => Returns.seq_iff install fun _ => ?_
  exact Returns.seq_iff map fun _ => Returns.seq_iff slots fun _ => bind ifindex

/-- The constructor returns if its arguments are good and each of its calls succeeds. -/
lemma construct_returns (w : Work) :
    Returns (construct k iface numBlocks) w ↔ k.Grants iface numBlocks := by
  rw [construct]
  split
  · rename_i low
    exact iff_of_false (Returns.not_raise _) fun h => absurd h.positive (by omega)
  rename_i high
  split
  · rename_i long
    exact iff_of_false (Returns.not_raise _) fun h => absurd h.short (by omega)
  rename_i fits
  rw [Returns.guard_iff, setup_returns]
  constructor
  · rintro ⟨socket, ioctl, version, rxRing, mmap, vector, bind⟩
    exact ⟨by omega, by omega, socket, ioctl, version, rxRing, mmap, vector, bind⟩
  · intro h
    exact ⟨h.socket, h.ioctl, h.version, h.rxRing, h.mmap, h.vector, h.bind⟩

/-- A ring on the stack is there if the constructor and `set_busy_poll` return. -/
lemma openOnStack_returns (w : Work) : Returns (openOnStack k iface numBlocks) w ↔
    k.Grants iface numBlocks ∧ k.busyPoll = .ok () := by
  refine Returns.seq_iff construct_returns (fun _ w => ?_) w
  rw [Returns.guard_iff, setBusyPoll, check_returns, exists_unit_iff]

/-- So is one behind a pointer. -/
lemma openBehindPointer_returns (w : Work) : Returns (openBehindPointer k iface numBlocks) w ↔
    k.Grants iface numBlocks ∧ k.busyPoll = .ok () := by
  refine Returns.seq_iff construct_returns (fun _ w => ?_) w
  rw [setBusyPoll, check_returns, exists_unit_iff]

end Returns

/-! ## The slots -/

section Slots

variable {numBlocks : BitVec 32}

/-- A positive number of blocks is widened to itself. -/
lemma toNat_signExtend (pos : 0 < numBlocks.toInt) :
    (numBlocks.signExtend 64).toNat = numBlocks.toNat ∧ numBlocks.toNat < 2 ^ 31 := by
  have small : numBlocks.toNat < 2 ^ 31 := by
    rw [BitVec.toInt_eq_toNat_cond] at pos
    split at pos <;> omega
  have msb : numBlocks.msb = false := by
    rw [BitVec.msb_eq_decide]
    exact decide_eq_false (by omega)
  refine ⟨?_, small⟩
  rw [BitVec.signExtend_eq_setWidth_of_msb_false msb, BitVec.toNat_setWidth]
  omega

/-- The number of slots does not overflow. -/
lemma toNat_totalFramesOf (pos : 0 < numBlocks.toInt) :
    (totalFramesOf numBlocks).toNat = numBlocks.toNat * kFramesPerBlock := by
  obtain ⟨wide, small⟩ := toNat_signExtend pos
  rw [totalFramesOf, BitVec.toNat_mul, wide]
  show numBlocks.toNat * 2048 % 2 ^ 64 = numBlocks.toNat * 2048
  omega

/-- The number of bytes does not overflow. -/
lemma toNat_ringBytesOf (pos : 0 < numBlocks.toInt) :
    (ringBytesOf numBlocks).toNat = numBlocks.toNat * kBlockSize := by
  obtain ⟨wide, small⟩ := toNat_signExtend pos
  rw [ringBytesOf, BitVec.toNat_mul, wide]
  show numBlocks.toNat * 4194304 % 2 ^ 64 = numBlocks.toNat * 4194304
  omega

/-- Slots fill a block. -/
lemma block_eq : kFramesPerBlock * kFrameSize = kBlockSize := by decide

/-- The block size that is asked for. -/
lemma blockSize_reqOf : (reqOf numBlocks).blockSize.toNat = kBlockSize := by
  show (BitVec.ofNat 32 kBlockSize).toNat = kBlockSize
  decide

/-- The slot size that is asked for. -/
lemma frameSize_reqOf : (reqOf numBlocks).frameSize.toNat = kFrameSize := by
  show (BitVec.ofNat 32 kFrameSize).toNat = kFrameSize
  decide

/-- The slots of a block, as the kernel computes them. -/
lemma framesPerBlock_reqOf : (reqOf numBlocks).framesPerBlock = kFramesPerBlock := by
  rw [TpacketReq.framesPerBlock, blockSize_reqOf, frameSize_reqOf, kFramesPerBlock]

/-- Blocks have no gaps: the kernel's frames lie one after another. -/
lemma slotAt_reqOf (i : ℕ) : (reqOf numBlocks).slotAt i = i * kFrameSize := by
  rw [TpacketReq.slotAt, framesPerBlock_reqOf, blockSize_reqOf, frameSize_reqOf, ← block_eq,
    ← Nat.mul_assoc, ← Nat.add_mul, Nat.div_add_mod']

/-- The bytes of the ring, as the kernel computes them. -/
lemma bytes_reqOf (pos : 0 < numBlocks.toInt) :
    (reqOf numBlocks).bytes = (ringBytesOf numBlocks).toNat := by
  rw [TpacketReq.bytes, blockSize_reqOf, toNat_ringBytesOf pos]
  rfl

/-- The kernel grants the request only if `tp_frame_nr` was not cut off. -/
lemma consistent_reqOf (pos : 0 < numBlocks.toInt) (ok : (reqOf numBlocks).Consistent) :
    (reqOf numBlocks).frameNr.toNat = (totalFramesOf numBlocks).toNat := by
  rw [← ok, framesPerBlock_reqOf, toNat_totalFramesOf pos, Nat.mul_comm]
  rfl

/-- A loop of `push_back`. -/
lemma foldl_push {α β : Type} (f : α → β) (l : List α) (acc : List β) :
    l.foldl (fun acc a => acc ++ [f a]) acc = acc ++ l.map f := by
  rw [List.foldl_append_eq_append, ← List.flatMap_def, ← List.map_eq_flatMap]

/-- The inner loop finds the slots of one block. -/
lemma block_slots (ring b : ℕ) (small : b < 2 ^ 31) :
    ((List.range kFramesPerBlock).map fun f =>
      ring + (BitVec.ofNat 64 b * BitVec.ofNat 64 kBlockSize).toNat
        + (BitVec.ofNat 32 f * BitVec.ofNat 32 kFrameSize).toNat)
      = (List.range kFramesPerBlock).map fun f => ring + (b * kFramesPerBlock + f) * kFrameSize := by
  apply List.map_congr_left
  intro f mem
  have inside : f < 2048 := List.mem_range.mp mem
  have block : (BitVec.ofNat 64 b * BitVec.ofNat 64 kBlockSize).toNat
      = b * kFramesPerBlock * kFrameSize := by
    rw [Nat.mul_assoc, block_eq, BitVec.toNat_mul, BitVec.toNat_ofNat, BitVec.toNat_ofNat]
    show b % 2 ^ 64 * 4194304 % 2 ^ 64 = b * 4194304
    omega
  have slot : (BitVec.ofNat 32 f * BitVec.ofNat 32 kFrameSize).toNat = f * kFrameSize := by
    rw [BitVec.toNat_mul, BitVec.toNat_ofNat, BitVec.toNat_ofNat]
    show f % 2 ^ 32 * 2048 % 2 ^ 32 = f * 2048
    omega
  rw [block, slot, Nat.add_mul, Nat.add_assoc]

/-- Whatever the number of blocks, slot `i` is `i` slots into the mapping. -/
lemma layOut_eq (ring : ℕ) (pos : 0 < numBlocks.toInt) :
    layOut numBlocks ring
      = (List.range (totalFramesOf numBlocks).toNat).map fun i => ring + i * kFrameSize := by
  have small := (toNat_signExtend pos).2
  -- the slots of the first `n` blocks
  have blocks : ∀ n ≤ numBlocks.toNat, (List.range n).foldl (fun frames b =>
      (List.range kFramesPerBlock).foldl (fun frames f =>
        frames ++ [ring + (BitVec.ofNat 64 b * BitVec.ofNat 64 kBlockSize).toNat
          + (BitVec.ofNat 32 f * BitVec.ofNat 32 kFrameSize).toNat]) frames) []
      = (List.range (n * kFramesPerBlock)).map fun i => ring + i * kFrameSize := by
    intro n le
    induction n with
    | zero => rw [Nat.zero_mul]; rfl
    | succ n ih =>
      have inner := block_slots ring n (by omega)
      rw [List.range_succ, List.foldl_append, ih (by omega), List.foldl_cons, List.foldl_nil, foldl_push,
        inner, Nat.succ_mul, List.range_add, List.map_append, List.map_map]
      rfl
  rw [layOut, blocks _ le_rfl, toNat_totalFramesOf pos]

end Slots

/-! ## What a construction leaves -/

/-- What the kernel gives is not in use: no descriptor that is open, no address that is mapped. -/
structure Answers.Fresh (k : Answers) (sys : System) (len : ℕ) : Prop where
  socket : ∀ fd, k.socket = .ok fd → sys.fds fd = none
  base : ∀ base, k.mmap = .ok base → sys.maps base = none
  mmap : ∀ base, k.mmap = .ok base → ∀ base' len', sys.maps base' = some len' →
    base + len ≤ base' ∨ base' + len' ≤ base

/-- The process has one more descriptor. -/
def System.withSocket (sys : System) (fd : ℕ) (sock : Socket) : System :=
  { sys with fds := Function.update sys.fds fd (some sock) }

/-- The process has one more mapping. -/
def System.withMapping (sys : System) (base len : ℕ) : System :=
  { sys with maps := Function.update sys.maps base (some len) }

/-- The work between steps 1 and 5. -/
def Work.socketOnly (sys : System) (fd : ℕ) (sock : Socket) (total : BitVec 64) : Work where
  sys := sys.withSocket fd sock
  this := { Members.new with fd := fd, totalFrames := total }

/-- The work from step 5 on. -/
def Work.withRing (sys : System) (numBlocks : BitVec 32) (fd : ℕ) (sock : Socket) (base : ℕ)
    (frames : List ℕ) : Work where
  sys := (sys.withSocket fd sock).withMapping base (ringBytesOf numBlocks).toNat
  this := { Members.new with
    fd := fd
    ring := some base
    ringBytes := ringBytesOf numBlocks
    frames := frames
    totalFrames := totalFramesOf numBlocks }

/-- The process has what it had before, and what the ring holds. -/
def Work.Owns (sys : System) (w : Work) : Prop :=
  (w.this.fd = -1 ∧ w.this.ring = none ∧ w.sys = sys) ∨
  ∃ fd : ℕ, ∃ sock, sys.fds fd = none ∧ w.this.fd = fd ∧
    ((w.this.ring = none ∧ w.sys = sys.withSocket fd sock) ∨
      ∃ base, sys.maps base = none ∧ w.this.ring = some base ∧
        w.sys = (sys.withSocket fd sock).withMapping base w.this.ringBytes.toNat)

section Construction

variable {sys : System} {k : Answers} {iface : List Char} {numBlocks : BitVec 32} {fd base ifindex : ℕ}
  {sock : Socket} {total : BitVec 64}

/-- Closing a new socket leaves what was there before. -/
lemma System.close_withSocket (fresh : sys.fds fd = none) : (sys.withSocket fd sock).close fd = sys := by
  show System.mk (Function.update (Function.update sys.fds fd (some sock)) fd none) sys.maps = sys
  rw [Function.update_idem, ← fresh, Function.update_eq_self]

/-- Unmapping a new mapping leaves what was there before. -/
lemma System.munmap_withMapping {len : ℕ} (fresh : sys.maps base = none) :
    (sys.withMapping base len).munmap base len = sys := by
  have here : (sys.withMapping base len).maps base = some len := Function.update_self ..
  rw [System.munmap, if_pos here]
  show System.mk sys.fds (Function.update (Function.update sys.maps base (some len)) base none) = sys
  rw [Function.update_idem, ← fresh, Function.update_eq_self]

/-- A socket option changes its socket. -/
lemma System.set_withSocket (f : Socket → Socket) :
    (sys.withSocket fd sock).set fd f = sys.withSocket fd (f sock) := by
  show System.mk (Function.update (Function.update sys.fds fd (some sock)) fd
    ((Function.update sys.fds fd (some sock) fd).map f)) sys.maps = _
  rw [Function.update_self, Function.update_idem]
  rfl

/-- `cleanup` gives back all that the ring holds. -/
lemma Work.Owns.cleanup {w : Work} (h : w.Owns sys) : w.cleanup.sys = sys ∧ w.cleanup.this.fd = -1 := by
  rcases h with ⟨closed, unmapped, same⟩ | ⟨fd, sock, freshFd, opened, ⟨unmapped, same⟩
    | ⟨base, freshBase, mapped, same⟩⟩
  · have negative : ¬0 ≤ w.this.fd := by omega
    rw [Work.cleanup, unmapped]
    simp only [if_neg negative]
    exact ⟨same, closed⟩
  · have nonneg : (0 : ℤ) ≤ fd := Int.natCast_nonneg fd
    rw [Work.cleanup, unmapped]
    simp only [opened, same, if_pos nonneg]
    exact ⟨System.close_withSocket freshFd, trivial⟩
  · have nonneg : (0 : ℤ) ≤ fd := Int.natCast_nonneg fd
    have freshBase : (sys.withSocket fd sock).maps base = none := freshBase
    rw [Work.cleanup, mapped]
    simp only [opened, same, System.munmap_withMapping freshBase, if_pos nonneg]
    exact ⟨System.close_withSocket freshFd, trivial⟩

open Throw (Ensures)

/-- A call that fails throws, and leaves everything as it was. -/
lemma check_ensures {α : Type} {P R : Work → Prop} (what : String) (answer : Except ℕ α)
    (owns : ∀ w, P w → R w) :
    Ensures P (check k what answer) (fun a w => answer = .ok a ∧ P w) R := by
  cases answer with
  | ok a => exact Ensures.ret fun w p => ⟨rfl, p⟩
  | error errno => exact Ensures.raise owns

/-- A socket is opened. -/
lemma openSocket_ensures :
    Ensures (· = ⟨sys, .new⟩) (openSocket k)
      (fun _ w => ∃ fd, k.socket = .ok fd ∧ w = .socketOnly sys fd .new 0) (Work.Owns sys) := by
  rw [openSocket]
  cases answer : k.socket with
  | ok fd =>
    refine Ensures.seq (Q := fun _ w => w = .socketOnly sys fd .new 0)
      (Ensures.update fun w start => by rw [start]; rfl) fun _ => ?_
    exact Ensures.ret fun w here => ⟨fd, rfl, here⟩
  | error errno =>
    refine Ensures.seq (Q := fun _ => Work.Owns sys) (Ensures.update fun w start => ?_) fun _ => ?_
    · rw [start]
      exact .inl ⟨rfl, rfl, rfl⟩
    · exact Ensures.seq (Q := fun _ _ => False) (Ensures.raise fun w owns => owns) fun _ _ => False.elim

/-- A constructor with a socket alone owns it. -/
lemma Work.socketOnly_owns (fresh : sys.fds fd = none) {w : Work}
    (here : w = .socketOnly sys fd sock total) : w.Owns sys := by
  rw [here]
  exact .inr ⟨fd, sock, fresh, rfl, .inl ⟨rfl, rfl⟩⟩

/-- A constructor with a ring owns socket and mapping. -/
lemma Work.withRing_owns (freshFd : sys.fds fd = none) (freshBase : sys.maps base = none)
    {frames : List ℕ} {w : Work} (here : w = .withRing sys numBlocks fd sock base frames) :
    w.Owns sys := by
  rw [here]
  exact .inr ⟨fd, sock, freshFd, rfl, .inr ⟨base, freshBase, rfl, rfl⟩⟩

/-- A socket option, before there is a ring. -/
lemma Work.set_socketOnly (f : Socket → Socket) :
    (Work.socketOnly sys fd sock total).set f = .socketOnly sys fd (f sock) total := by
  show Work.mk ((sys.withSocket fd sock).set fd f) _ = _
  rw [System.set_withSocket]
  rfl

/-- The version is selected. -/
lemma selectVersion_ensures (fresh : sys.fds fd = none) :
    Ensures (· = .socketOnly sys fd sock total) (selectVersion k)
      (fun _ w => w = .socketOnly sys fd { sock with version := 1 } total) (Work.Owns sys) := by
  rw [selectVersion]
  refine Ensures.seq (check_ensures _ _ fun w => Work.socketOnly_owns fresh) fun _ => ?_
  refine Ensures.fact fun _ => Ensures.update fun w here => ?_
  rw [here, Work.set_socketOnly]

/-- The ring is installed, if the kernel takes the request. -/
lemma installRing_ensures (fresh : sys.fds fd = none) :
    Ensures (· = .socketOnly sys fd sock total) (installRing k numBlocks)
      (fun _ w => (reqOf numBlocks).Consistent ∧
        w = .socketOnly sys fd { sock with ring := some (reqOf numBlocks) } (totalFramesOf numBlocks))
      (Work.Owns sys) := by
  rw [installRing]
  refine Ensures.seq (Q := fun _ w => w = .socketOnly sys fd sock (totalFramesOf numBlocks))
    (Ensures.update fun w here => by rw [here]; rfl) fun _ => ?_
  refine Ensures.seq (check_ensures _ _ fun w => Work.socketOnly_owns fresh) fun _ => ?_
  refine Ensures.fact fun granted => Ensures.update fun w here => ⟨?_, ?_⟩
  · by_contra refused
    rw [Answers.grant, if_neg refused] at granted
    exact nomatch granted
  · rw [here, Work.set_socketOnly]

/-- A socket option, with the ring. -/
lemma Work.set_withRing {frames : List ℕ} (f : Socket → Socket) :
    (Work.withRing sys numBlocks fd sock base frames).set f
      = .withRing sys numBlocks fd (f sock) base frames := by
  show Work.mk (((sys.withSocket fd sock).set fd f).withMapping base _) _ = _
  rw [System.set_withSocket]
  rfl

/-- The ring is mapped. -/
lemma mapRing_ensures (pos : 0 < numBlocks.toInt) (freshFd : sys.fds fd = none) :
    Ensures (· = .socketOnly sys fd sock (totalFramesOf numBlocks)) (mapRing k numBlocks)
      (fun _ w => ∃ base, k.mmap = .ok base ∧ w = .withRing sys numBlocks fd sock base [])
      (Work.Owns sys) := by
  have whole : k.map (reqOf numBlocks) (ringBytesOf numBlocks).toNat = k.mmap := by
    rw [Answers.map, if_pos (bytes_reqOf pos).symm]
  rw [mapRing, whole]
  refine Ensures.seq (Q := fun _ w => w = { sys := sys.withSocket fd sock, this := { Members.new with
    fd := fd, totalFrames := totalFramesOf numBlocks, ringBytes := ringBytesOf numBlocks } })
    (Ensures.update fun w here => by rw [here]; rfl) fun _ => ?_
  cases answer : k.mmap with
  | ok base =>
    refine Ensures.seq (Q := fun _ w => w = .withRing sys numBlocks fd sock base [])
      (Ensures.update fun w here => by rw [here]; rfl) fun _ => ?_
    exact Ensures.ret fun w here => ⟨base, rfl, here⟩
  | error errno =>
    refine Ensures.seq (Q := fun _ => Work.Owns sys) (Ensures.update fun w here => ?_) fun _ => ?_
    · rw [here]
      exact .inr ⟨fd, sock, freshFd, rfl, .inl ⟨rfl, rfl⟩⟩
    · exact Ensures.seq (Q := fun _ _ => False) (Ensures.raise fun w owns => owns) fun _ _ => False.elim

/-- The slots are found. -/
lemma findSlots_ensures (freshFd : sys.fds fd = none) (freshBase : sys.maps base = none) :
    Ensures (· = .withRing sys numBlocks fd sock base []) (findSlots k numBlocks)
      (fun _ w => w = .withRing sys numBlocks fd sock base (layOut numBlocks base)) (Work.Owns sys) := by
  rw [findSlots]
  split
  · exact Ensures.update fun w here => by rw [here]; rfl
  · exact Ensures.raise fun w => Work.withRing_owns freshFd freshBase

/-- The socket is bound to the interface. -/
lemma bindTo_ensures {frames : List ℕ} (freshFd : sys.fds fd = none) (freshBase : sys.maps base = none) :
    Ensures (· = .withRing sys numBlocks fd sock base frames) (bindTo k ifindex)
      (fun _ w => w = .withRing sys numBlocks fd { sock with ifindex := some ifindex } base frames)
      (Work.Owns sys) := by
  rw [bindTo]
  refine Ensures.seq (check_ensures _ _ fun w => Work.withRing_owns freshFd freshBase) fun _ => ?_
  refine Ensures.fact fun _ => Ensures.update fun w here => ?_
  rw [here, Work.set_withRing]

/-- The socket of a ring that is in use. -/
def Socket.inUse (numBlocks : BitVec 32) (ifindex : ℕ) : Socket where
  version := 1
  ring := some (reqOf numBlocks)
  ifindex := some ifindex

/-- The process with a ring. -/
def Work.Complete (k : Answers) (iface : List Char) (numBlocks : BitVec 32) (sys : System) (w : Work) : Prop :=
  (reqOf numBlocks).Consistent ∧ ∃ fd base ifindex, k.socket = .ok fd ∧ k.mmap = .ok base ∧
    k.ioctl (iface.take (ifNamSiz - 1)) = .ok ifindex ∧
    w = .withRing sys numBlocks fd (.inUse numBlocks ifindex) base (layOut numBlocks base)

/-- The constructor builds a whole ring, or owns what it has built so far. -/
lemma setup_ensures (pos : 0 < numBlocks.toInt) (fresh : k.Fresh sys (ringBytesOf numBlocks).toNat) :
    Ensures (· = ⟨sys, .new⟩) (setup k iface numBlocks)
      (fun _ => Work.Complete k iface numBlocks sys) (Work.Owns sys) := by
  rw [setup]
  refine Ensures.seq openSocket_ensures fun _ => Ensures.any fun fd => Ensures.fact fun opened => ?_
  have freshFd := fresh.socket fd opened
  refine Ensures.seq (check_ensures _ _ fun w => Work.socketOnly_owns freshFd) fun ifindex => ?_
  refine Ensures.fact fun resolved => Ensures.seq (selectVersion_ensures freshFd) fun _ => ?_
  refine Ensures.seq (installRing_ensures freshFd) fun _ => Ensures.fact fun consistent => ?_
  refine Ensures.seq (mapRing_ensures pos freshFd) fun _ => Ensures.any fun base => ?_
  refine Ensures.fact fun mapped => ?_
  have freshBase := fresh.base base mapped
  refine Ensures.seq (findSlots_ensures freshFd freshBase) fun _ => ?_
  refine Ensures.conseq (bindTo_ensures freshFd freshBase) (fun w here => here) (fun _ w here => ?_)
    (fun w owns => owns)
  exact ⟨consistent, fd, base, ifindex, opened, mapped, resolved, here⟩

/-- Whatever the calls answer: a construction that returns has set up the ring, and one that throws
leaves the process as it was. -/
lemma construct_ensures (fresh : k.Fresh sys (ringBytesOf numBlocks).toNat) :
    Ensures (· = ⟨sys, .new⟩) (construct k iface numBlocks)
      (fun _ w => 0 < numBlocks.toInt ∧ iface.length < ifNamSiz ∧ w.Complete k iface numBlocks sys)
      (fun w => w.sys = sys ∧ w.this.fd = -1) := by
  rw [construct]
  split
  · exact Ensures.raise fun w start => by rw [start]; exact ⟨rfl, rfl⟩
  rename_i pos
  split
  · exact Ensures.raise fun w start => by rw [start]; exact ⟨rfl, rfl⟩
  rename_i short
  have pos : 0 < numBlocks.toInt := by omega
  refine Ensures.conseq (Ensures.guard (setup_ensures pos fresh) fun w owns => owns.cleanup)
    (fun w start => start) (fun _ w complete => ⟨pos, by omega, complete⟩) (fun w clean => clean)

/-- A whole ring owns socket and mapping. -/
lemma Work.Complete.owns {w : Work} (fresh : k.Fresh sys (ringBytesOf numBlocks).toNat)
    (h : w.Complete k iface numBlocks sys) : w.Owns sys := by
  obtain ⟨_, fd, base, ifindex, opened, mapped, _, here⟩ := h
  exact Work.withRing_owns (fresh.socket fd opened) (fresh.base base mapped) here

/-- A ring that was set up, of a positive number of blocks. -/
def Work.Ready (k : Answers) (iface : List Char) (numBlocks : BitVec 32) (sys : System) (w : Work) : Prop :=
  0 < numBlocks.toInt ∧ iface.length < ifNamSiz ∧ w.Complete k iface numBlocks sys

/-- A ring on the stack is ready, or the process is what it was. -/
lemma openOnStack_ensures (iface : List Char) (fresh : k.Fresh sys (ringBytesOf numBlocks).toNat) :
    Ensures (· = ⟨sys, .new⟩) (openOnStack k iface numBlocks)
      (fun _ => Work.Ready k iface numBlocks sys) (fun w => w.sys = sys) := by
  rw [openOnStack]
  refine Ensures.seq (Ensures.conseq (construct_ensures fresh) (fun w start => start)
    (fun _ w ready => ready) (fun w clean => clean.1)) fun _ => ?_
  refine Ensures.guard (R := Work.Ready k iface numBlocks sys) ?_ fun w ready =>
    (ready.2.2.owns fresh).cleanup.1
  exact Ensures.conseq (check_ensures _ _ fun w ready => ready) (fun w ready => ready)
    (fun _ w ready => ready.2) (fun w ready => ready)

/-- Behind a pointer, an exception of `set_busy_poll` leaves the ring as it is. -/
lemma openBehindPointer_ensures (iface : List Char) (fresh : k.Fresh sys (ringBytesOf numBlocks).toNat) :
    Ensures (· = ⟨sys, .new⟩) (openBehindPointer k iface numBlocks)
      (fun _ => Work.Ready k iface numBlocks sys)
      (fun w => (¬ k.Grants iface numBlocks ∧ w.sys = sys ∧ w.this.fd = -1) ∨
        (k.Grants iface numBlocks ∧ w.Ready k iface numBlocks sys)) := by
  rw [openBehindPointer]
  refine Ensures.seq (Ensures.conseq ((construct_ensures fresh).of_returns construct_returns)
    (fun w start => start) (fun _ w ready => ready) (fun w clean => .inl clean)) fun _ => ?_
  exact Ensures.conseq (check_ensures _ _ fun w ready => ready) (fun w ready => ready)
    (fun _ w ready => ready.2.2) (fun w ready => .inr ready)

end Construction

end UxNet.PacketRing
