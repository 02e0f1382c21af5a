import UxNet.Ring.Setup

/-!
# The rings of a process

Programs open rings and destroy them, in any order, and every call may fail. `Held` says that the process
has what it had at the start and what its rings hold, and that kernel and program agree on each of them;
a construction adds a ring to it and a destructor takes one away.
-/

namespace UxNet.PacketRing

/-- A process, the rings in its scopes, and those it has no pointer to any more. -/
structure Rings where
  sys : System
  live : List Members
  lost : List Members

namespace Rings

/-- No ring yet. -/
def init (sys : System) : Rings where
  sys := sys
  live := []
  lost := []

/-- A program opens a ring on its stack. -/
def onStack (s : Rings) (k : Answers) (iface : List Char) (numBlocks : BitVec 32) : Rings :=
  match (openOnStack k iface numBlocks).exec ⟨s.sys, .new⟩ with
  | (.ok _, w) => { s with sys := w.sys, live := w.this :: s.live }
  | (.error _, w) => { s with sys := w.sys }

/-- A program opens a ring behind a pointer; the handler returns without a `delete`. -/
def behindPointer (s : Rings) (k : Answers) (iface : List Char) (numBlocks : BitVec 32) : Rings :=
  match (openBehindPointer k iface numBlocks).exec ⟨s.sys, .new⟩ with
  | (.ok _, w) => { s with sys := w.sys, live := w.this :: s.live }
  | (.error _, w) =>
    { s with sys := w.sys, lost := if 0 ≤ w.this.fd then w.this :: s.lost else s.lost }

/-- `PacketRing::~PacketRing`. -/
def destroy (s : Rings) (r : Members) : Rings :=
  { s with sys := (Work.cleanup ⟨s.sys, r⟩).sys, live := s.live.erase r }

/-- A ring is opened or destroyed. -/
inductive Step : Rings → Rings → Prop where
  | onStack {s} (k : Answers) (iface : List Char) (numBlocks : BitVec 32) :
    k.Fresh s.sys (ringBytesOf numBlocks).toNat →
    Step s (s.onStack k iface numBlocks)
  | behindPointer {s} (k : Answers) (iface : List Char) (numBlocks : BitVec 32) :
    k.Fresh s.sys (ringBytesOf numBlocks).toNat →
    Step s (s.behindPointer k iface numBlocks)
  | destroy {s r} :
    r ∈ s.live →
    Step s (s.destroy r)

/-- Any number of steps. -/
abbrev Steps : Rings → Rings → Prop := Relation.ReflTransGen Step

end Rings

/-- Kernel and program agree on a ring: the socket is set up, the mapping is the whole ring, and
`frames_` has the slots in the kernel's order. -/
structure Agrees (sys : System) (r : Members) (fd base ifindex : ℕ) (q : TpacketReq) : Prop where
  opened : r.fd = fd
  mapped : r.ring = some base
  socket : sys.fds fd = some { version := 1, ring := some q, ifindex := some ifindex }
  mapping : sys.maps base = some r.ringBytes.toNat
  total : r.totalFrames.toNat = q.frameNr.toNat
  pos : 0 < q.frameNr.toNat
  bytes : r.ringBytes.toNat = q.frameNr.toNat * kFrameSize
  order : r.frames = (List.range q.frameNr.toNat).map fun i => base + q.slotAt i
  slots : ∀ i : Fin q.frameNr.toNat, q.slotAt i = frames i

/-- What the process has is what it had at the start and what the rings hold. -/
structure Held (sys₀ sys : System) (rings : List Members) : Prop where
  agrees : ∀ r ∈ rings, ∃ fd base ifindex q, Agrees sys r fd base ifindex q ∧
    sys₀.fds fd = none ∧ sys₀.maps base = none
  fds : ∀ fd : ℕ, (∀ r ∈ rings, r.fd ≠ fd) → sys.fds fd = sys₀.fds fd
  maps : ∀ base, (∀ r ∈ rings, r.ring ≠ some base) → sys.maps base = sys₀.maps base
  apart : sys.Apart
  distinct : rings.Pairwise fun r r' => r.fd ≠ r'.fd ∧ r.ring ≠ r'.ring

section Run

variable {sys₀ sys sys' : System} {k : Answers} {iface : List Char} {numBlocks : BitVec 32}
  {r : Members} {rings rings' : List Members} {w : Work} {fd base ifindex : ℕ} {q : TpacketReq}

/-- Kernel and ring agree as long as the descriptor and the mapping are there. -/
lemma Agrees.frame (h : Agrees sys r fd base ifindex q) (fds : sys'.fds fd = sys.fds fd)
    (maps : sys'.maps base = sys.maps base) : Agrees sys' r fd base ifindex q :=
  { h with
    socket := fds.trans h.socket
    mapping := maps.trans h.mapping }

/-- A ring that was just set up. -/
lemma Work.Ready.agrees (h : w.Ready k iface numBlocks sys) :
    ∃ fd base ifindex, k.socket = .ok fd ∧ k.mmap = .ok base ∧
      Agrees w.sys w.this fd base ifindex (reqOf numBlocks) ∧
      w.sys.fds = Function.update sys.fds fd (some (.inUse numBlocks ifindex)) ∧
      w.sys.maps = Function.update sys.maps base (some (ringBytesOf numBlocks).toNat) := by
  obtain ⟨pos, _, consistent, fd, base, ifindex, opened, mapped, _, rfl⟩ := h
  have count := consistent_reqOf pos consistent
  have total := toNat_totalFramesOf pos
  have blocks := (toNat_signExtend pos).1
  have some : 0 < numBlocks.toNat := by
    rw [BitVec.toInt_eq_toNat_cond] at pos
    split at pos <;> omega
  refine ⟨fd, base, ifindex, opened, mapped, ?_, rfl, rfl⟩
  constructor
  case opened => rfl
  case mapped => rfl
  case socket => exact Function.update_self ..
  case mapping => exact Function.update_self ..
  case total => exact count.symm
  case pos =>
    rw [count, total]
    exact Nat.mul_pos some (by decide)
  case bytes =>
    show (ringBytesOf numBlocks).toNat = _
    rw [count, total, toNat_ringBytesOf pos, Nat.mul_assoc, block_eq]
  case order =>
    show layOut numBlocks base = _
    rw [count, layOut_eq base pos]
    exact List.map_congr_left fun i _ => by rw [slotAt_reqOf]
  case slots => exact fun i => slotAt_reqOf i

/-- The order of the rings does not matter. -/
lemma Held.perm (h : Held sys₀ sys rings) (p : rings.Perm rings') : Held sys₀ sys rings' where
  agrees := fun r mem => h.agrees r (p.mem_iff.mpr mem)
  fds := fun fd none => h.fds fd fun r mem => none r (p.mem_iff.mp mem)
  maps := fun base none => h.maps base fun r mem => none r (p.mem_iff.mp mem)
  apart := h.apart
  distinct := (p.pairwise_iff fun ne => ⟨ne.1.symm, ne.2.symm⟩).mp h.distinct

/-- A mapping in a free place keeps the mappings apart. -/
lemma System.Apart.add {len : ℕ} (apart : sys.Apart)
    (fresh : ∀ base' len', sys.maps base' = some len' → base + len ≤ base' ∨ base' + len' ≤ base)
    (maps : sys'.maps = Function.update sys.maps base (some len)) : sys'.Apart := by
  intro b b' l l' ne mem mem'
  rw [maps] at mem mem'
  rcases eq_or_ne b base with rfl | off
  · rw [Function.update_self] at mem
    rw [Function.update_of_ne ne.symm] at mem'
    cases mem
    exact fresh b' l' mem'
  · rw [Function.update_of_ne off] at mem
    rcases eq_or_ne b' base with rfl | off'
    · rw [Function.update_self] at mem'
      cases mem'
      exact (fresh b l mem).symm
    · rw [Function.update_of_ne off'] at mem'
      exact apart b b' l l' ne mem mem'

/-- Removing a mapping keeps the others apart. -/
lemma System.Apart.remove (apart : sys.Apart) (maps : sys'.maps = Function.update sys.maps base none) :
    sys'.Apart := by
  have kept : ∀ b l, sys'.maps b = some l → sys.maps b = some l := by
    intro b l mem
    rw [maps] at mem
    rcases eq_or_ne b base with rfl | off
    · rw [Function.update_self] at mem
      exact nomatch mem
    · rwa [Function.update_of_ne off] at mem
  exact fun b b' l l' ne mem mem' => apart b b' l l' ne (kept b l mem) (kept b' l' mem')

/-- A ring more. -/
lemma Held.add (h : Held sys₀ sys rings) (fresh : k.Fresh sys (ringBytesOf numBlocks).toNat)
    (ready : w.Ready k iface numBlocks sys) : Held sys₀ w.sys (w.this :: rings) := by
  obtain ⟨fd, base, ifindex, opened, mapped, agrees, fds, maps⟩ := ready.agrees
  have freeFd := fresh.socket fd opened
  have freeBase := fresh.base base mapped
  have offFd : ∀ r ∈ rings, r.fd ≠ fd := by
    intro r mem same
    obtain ⟨fd', base', _, _, agrees', _⟩ := h.agrees r mem
    have socket := agrees'.socket
    rw [Int.natCast_inj.mp (agrees'.opened.symm.trans same), freeFd] at socket
    exact nomatch socket
  have offBase : ∀ r ∈ rings, r.ring ≠ some base := by
    intro r mem same
    obtain ⟨fd', base', _, _, agrees', _⟩ := h.agrees r mem
    have mapping := agrees'.mapping
    rw [Option.some_inj.mp (agrees'.mapped.symm.trans same), freeBase] at mapping
    exact nomatch mapping
  constructor
  case agrees =>
    intro r mem
    rcases List.mem_cons.mp mem with rfl | mem
    · exact ⟨fd, base, ifindex, _, agrees, (h.fds fd offFd).symm.trans freeFd,
        (h.maps base offBase).symm.trans freeBase⟩
    · obtain ⟨fd', base', ifindex', q, agrees', start⟩ := h.agrees r mem
      refine ⟨fd', base', ifindex', q, agrees'.frame ?_ ?_, start⟩
      · rw [fds, Function.update_of_ne]
        exact fun same => offFd r mem (agrees'.opened.trans (congrArg _ same))
      · rw [maps, Function.update_of_ne]
        exact fun same => offBase r mem (agrees'.mapped.trans (congrArg _ same))
  case fds =>
    intro fd' none
    have ne : fd' ≠ fd := fun same =>
      none w.this (List.mem_cons_self ..) (agrees.opened.trans (congrArg _ same.symm))
    rw [fds, Function.update_of_ne ne]
    exact h.fds fd' fun r mem => none r (List.mem_cons_of_mem _ mem)
  case maps =>
    intro base' none
    have ne : base' ≠ base := fun same =>
      none w.this (List.mem_cons_self ..) (agrees.mapped.trans (congrArg _ same.symm))
    rw [maps, Function.update_of_ne ne]
    exact h.maps base' fun r mem => none r (List.mem_cons_of_mem _ mem)
  case apart => exact h.apart.add (fresh.mmap base mapped) maps
  case distinct =>
    refine List.pairwise_cons.mpr ⟨fun r mem => ⟨?_, ?_⟩, h.distinct⟩
    · exact fun same => offFd r mem (same.symm.trans agrees.opened)
    · exact fun same => offBase r mem (same.symm.trans agrees.mapped)

/-- A ring less. -/
lemma Held.remove (h : Held sys₀ sys (r :: rings)) : Held sys₀ (Work.cleanup ⟨sys, r⟩).sys rings := by
  obtain ⟨fd, base, ifindex, q, agrees, startFd, startBase⟩ := h.agrees r (List.mem_cons_self ..)
  obtain ⟨off, distinct⟩ := List.pairwise_cons.mp h.distinct
  have nonneg : (0 : ℤ) ≤ fd := Int.natCast_nonneg fd
  have clean : (Work.cleanup ⟨sys, r⟩).sys = (sys.munmap base r.ringBytes.toNat).close fd := by
    rw [Work.cleanup]
    simp only [agrees.mapped, agrees.opened, if_pos nonneg]
    rfl
  have fds : (Work.cleanup ⟨sys, r⟩).sys.fds = Function.update sys.fds fd none := by
    rw [clean, System.munmap, if_pos agrees.mapping]
    rfl
  have maps : (Work.cleanup ⟨sys, r⟩).sys.maps = Function.update sys.maps base none := by
    rw [clean, System.munmap, if_pos agrees.mapping]
    rfl
  constructor
  case agrees =>
    intro r' mem
    obtain ⟨fd', base', ifindex', q', agrees', start⟩ := h.agrees r' (List.mem_cons_of_mem _ mem)
    refine ⟨fd', base', ifindex', q', agrees'.frame ?_ ?_, start⟩
    · rw [fds, Function.update_of_ne]
      exact fun same => (off r' mem).1 (by rw [agrees.opened, agrees'.opened, same])
    · rw [maps, Function.update_of_ne]
      exact fun same => (off r' mem).2 (by rw [agrees.mapped, agrees'.mapped, same])
  case fds =>
    intro fd' none
    rw [fds]
    rcases eq_or_ne fd' fd with rfl | ne
    · rw [Function.update_self, startFd]
    · rw [Function.update_of_ne ne]
      refine h.fds fd' fun r' mem => ?_
      rcases List.mem_cons.mp mem with rfl | mem
      · exact fun same => ne (Int.natCast_inj.mp (same.symm.trans agrees.opened))
      · exact none r' mem
  case maps =>
    intro base' none
    rw [maps]
    rcases eq_or_ne base' base with rfl | ne
    · rw [Function.update_self, startBase]
    · rw [Function.update_of_ne ne]
      refine h.maps base' fun r' mem => ?_
      rcases List.mem_cons.mp mem with rfl | mem
      · exact fun same => ne (Option.some_inj.mp (same.symm.trans agrees.mapped))
      · exact none r' mem
  case apart => exact h.apart.remove maps
  case distinct => exact distinct

/-- An open on the stack that returns adds a ring. -/
lemma Rings.onStack_returned (s : Rings) (fresh : k.Fresh s.sys (ringBytesOf numBlocks).toNat)
    (returned : (openOnStack k iface numBlocks).Returns ⟨s.sys, .new⟩) :
    ∃ w : Work, w.Ready k iface numBlocks s.sys ∧
      s.onStack k iface numBlocks = { s with sys := w.sys, live := w.this :: s.live } := by
  have ends := openOnStack_ensures iface fresh ⟨s.sys, .new⟩ rfl
  obtain ⟨_, w, e⟩ := returned
  rw [e] at ends
  rw [Rings.onStack, e]
  exact ⟨w, ends, rfl⟩

/-- One that throws changes nothing. -/
lemma Rings.onStack_thrown (s : Rings) (fresh : k.Fresh s.sys (ringBytesOf numBlocks).toNat)
    (thrown : ¬ (openOnStack k iface numBlocks).Returns ⟨s.sys, .new⟩) :
    s.onStack k iface numBlocks = s := by
  have ends := openOnStack_ensures iface fresh ⟨s.sys, .new⟩ rfl
  rw [Throw.Returns] at thrown
  rw [Rings.onStack]
  generalize (openOnStack k iface numBlocks).exec ⟨s.sys, .new⟩ = result at ends thrown ⊢
  rcases result with ⟨e | a, w⟩
  · have same : w.sys = s.sys := ends
    show Rings.mk w.sys s.live s.lost = s
    rw [same]
  · exact absurd ⟨a, w, rfl⟩ thrown

/-- An open behind a pointer that returns adds a ring. -/
lemma Rings.behindPointer_returned (s : Rings) (fresh : k.Fresh s.sys (ringBytesOf numBlocks).toNat)
    (returned : (openBehindPointer k iface numBlocks).Returns ⟨s.sys, .new⟩) :
    ∃ w : Work, w.Ready k iface numBlocks s.sys ∧
      s.behindPointer k iface numBlocks = { s with sys := w.sys, live := w.this :: s.live } := by
  have ends := openBehindPointer_ensures iface fresh ⟨s.sys, .new⟩ rfl
  obtain ⟨_, w, e⟩ := returned
  rw [e] at ends
  rw [Rings.behindPointer, e]
  exact ⟨w, ends, rfl⟩

/-- One that throws changes nothing if it was the constructor that threw, and otherwise leaves a ring that
nothing points to. -/
lemma Rings.behindPointer_thrown (s : Rings) (fresh : k.Fresh s.sys (ringBytesOf numBlocks).toNat)
    (thrown : ¬ (openBehindPointer k iface numBlocks).Returns ⟨s.sys, .new⟩) :
    (¬ k.Grants iface numBlocks ∧ s.behindPointer k iface numBlocks = s) ∨
    (k.Grants iface numBlocks ∧ ∃ w : Work, w.Ready k iface numBlocks s.sys ∧
      s.behindPointer k iface numBlocks = { s with sys := w.sys, lost := w.this :: s.lost }) := by
  have ends := openBehindPointer_ensures iface fresh ⟨s.sys, .new⟩ rfl
  rw [Throw.Returns] at thrown
  rw [Rings.behindPointer]
  generalize (openBehindPointer k iface numBlocks).exec ⟨s.sys, .new⟩ = result at ends thrown ⊢
  rcases result with ⟨e | a, w⟩
  · rcases ends with ⟨refused, same, closed⟩ | ⟨granted, ready⟩
    · have negative : ¬0 ≤ w.this.fd := by omega
      refine .inl ⟨refused, ?_⟩
      show Rings.mk w.sys s.live (if 0 ≤ w.this.fd then w.this :: s.lost else s.lost) = s
      rw [same, if_neg negative]
    · obtain ⟨fd, _, _, _, _, agrees, _⟩ := ready.agrees
      have nonneg : 0 ≤ w.this.fd := by
        rw [agrees.opened]
        exact Int.natCast_nonneg fd
      refine .inr ⟨granted, w, ready, ?_⟩
      show Rings.mk w.sys s.live (if 0 ≤ w.this.fd then w.this :: s.lost else s.lost) = _
      rw [if_pos nonneg]
  · exact absurd ⟨a, w, rfl⟩ thrown

/-- What one step preserves. -/
lemma Held.step {s s' : Rings} (h : Held sys₀ s.sys (s.live ++ s.lost)) (step : Rings.Step s s') :
    Held sys₀ s'.sys (s'.live ++ s'.lost) := by
  cases step with
  | onStack k iface numBlocks fresh =>
    by_cases ends : (openOnStack k iface numBlocks).Returns ⟨s.sys, .new⟩
    · obtain ⟨w, ready, eq⟩ := s.onStack_returned fresh ends
      rw [eq]
      exact h.add fresh ready
    · rwa [s.onStack_thrown fresh ends]
  | behindPointer k iface numBlocks fresh =>
    by_cases ends : (openBehindPointer k iface numBlocks).Returns ⟨s.sys, .new⟩
    · obtain ⟨w, ready, eq⟩ := s.behindPointer_returned fresh ends
      rw [eq]
      exact h.add fresh ready
    · rcases s.behindPointer_thrown fresh ends with ⟨_, same⟩ | ⟨_, w, ready, eq⟩
      · rwa [same]
      · rw [eq]
        exact (h.add fresh ready).perm List.perm_middle.symm
  | @destroy r mem =>
    have first : (s.live ++ s.lost).Perm (r :: (s.live.erase r ++ s.lost)) :=
      (List.perm_cons_erase mem).append_right s.lost
    exact (h.perm first).remove

/-- What opening a ring on the stack does. -/
structure OnStack (s : Rings) (k : Answers) (iface : List Char) (numBlocks : BitVec 32) : Prop where
  returns : (openOnStack k iface numBlocks).Returns ⟨s.sys, .new⟩ ↔
    k.Grants iface numBlocks ∧ k.busyPoll = .ok ()
  opened : (openOnStack k iface numBlocks).Returns ⟨s.sys, .new⟩ →
    ∃ r, (s.onStack k iface numBlocks).live = r :: s.live ∧ (s.onStack k iface numBlocks).lost = s.lost
  thrown : ¬ (openOnStack k iface numBlocks).Returns ⟨s.sys, .new⟩ → s.onStack k iface numBlocks = s

/-- What opening a ring behind a pointer does. -/
structure BehindPointer (s : Rings) (k : Answers) (iface : List Char) (numBlocks : BitVec 32) : Prop where
  returns : (openBehindPointer k iface numBlocks).Returns ⟨s.sys, .new⟩ ↔
    k.Grants iface numBlocks ∧ k.busyPoll = .ok ()
  opened : (openBehindPointer k iface numBlocks).Returns ⟨s.sys, .new⟩ →
    ∃ r, (s.behindPointer k iface numBlocks).live = r :: s.live ∧
      (s.behindPointer k iface numBlocks).lost = s.lost
  lost : (∃ r, (s.behindPointer k iface numBlocks).lost = r :: s.lost) ↔
    (construct k iface numBlocks).Returns ⟨s.sys, .new⟩ ∧ k.busyPoll ≠ .ok ()
  thrown : ¬ (construct k iface numBlocks).Returns ⟨s.sys, .new⟩ → s.behindPointer k iface numBlocks = s

/-- A ring on the stack is there or not. -/
lemma OnStack.of_fresh (s : Rings) (iface : List Char)
    (fresh : k.Fresh s.sys (ringBytesOf numBlocks).toNat) : OnStack s k iface numBlocks where
  returns := openOnStack_returns _
  opened := by
    intro returned
    obtain ⟨w, _, eq⟩ := s.onStack_returned fresh returned
    rw [eq]
    exact ⟨w.this, rfl, rfl⟩
  thrown := s.onStack_thrown fresh

/-- A ring behind a pointer is lost if it is there and `set_busy_poll` throws. -/
lemma BehindPointer.of_fresh (s : Rings) (iface : List Char)
    (fresh : k.Fresh s.sys (ringBytesOf numBlocks).toNat) : BehindPointer s k iface numBlocks where
  returns := openBehindPointer_returns _
  opened := by
    intro returned
    obtain ⟨w, _, eq⟩ := s.behindPointer_returned fresh returned
    rw [eq]
    exact ⟨w.this, rfl, rfl⟩
  lost := by
    have same : ∀ r : Members, s.lost ≠ r :: s.lost := by
      intro r e
      have := congrArg List.length e
      rw [List.length_cons] at this
      omega
    rw [construct_returns]
    by_cases ends : (openBehindPointer k iface numBlocks).Returns ⟨s.sys, .new⟩
    · obtain ⟨w, _, eq⟩ := s.behindPointer_returned fresh ends
      rw [eq]
      have polled := ((openBehindPointer_returns _).mp ends).2
      exact iff_of_false (fun ⟨r, e⟩ => same r e) fun refused => refused.2 polled
    · rcases s.behindPointer_thrown fresh ends with ⟨refused, eq⟩ | ⟨granted, w, _, eq⟩
      · rw [eq]
        exact iff_of_false (fun ⟨r, e⟩ => same r e) fun granted => refused granted.1
      · rw [eq]
        refine iff_of_true ⟨w.this, rfl⟩ ⟨granted, fun polled => ends ?_⟩
        exact (openBehindPointer_returns _).mpr ⟨granted, polled⟩
  thrown := by
    intro thrown
    rw [construct_returns] at thrown
    have ends : ¬ (openBehindPointer k iface numBlocks).Returns ⟨s.sys, .new⟩ :=
      fun returned => thrown ((openBehindPointer_returns _).mp returned).1
    rcases s.behindPointer_thrown fresh ends with ⟨_, eq⟩ | ⟨granted, _⟩
    · exact eq
    · exact absurd granted thrown

/-- In every run in which the programs open rings, on the stack or behind a pointer, and destroy them,
whatever the kernel answers: the process has the descriptors and mappings it had at the start and those
of the rings, each ring its own, and nothing else; kernel and program agree on the number, the order and
the places of the slots. The constructor returns exactly if the arguments are good and each of its calls
succeeds, and an open exactly if `set_busy_poll` succeeds besides; then there is one ring more. An open on
the stack that throws changes nothing. One behind a pointer leaves a whole ring that nothing points to
exactly if the constructor returns and `set_busy_poll` throws, and nothing if the constructor throws. -/
theorem rings_accounted (apart : sys₀.Apart) {s : Rings} (run : Rings.Steps (.init sys₀) s) :
    Held sys₀ s.sys (s.live ++ s.lost) ∧
    ∀ k iface numBlocks, k.Fresh s.sys (ringBytesOf numBlocks).toNat →
      ((construct k iface numBlocks).Returns ⟨s.sys, .new⟩ ↔ k.Grants iface numBlocks) ∧
      OnStack s k iface numBlocks ∧ BehindPointer s k iface numBlocks := by
  constructor
  · induction run with
    | refl =>
      exact ⟨nofun, fun _ _ => rfl, fun _ _ => rfl, apart, List.Pairwise.nil⟩
    | tail _ step ih => exact ih.step step
  · intro k iface numBlocks fresh
    exact ⟨construct_returns _, .of_fresh s iface fresh, .of_fresh s iface fresh⟩

end Run

/-- Every call succeeds, with this descriptor and this mapping. -/
def allGranted (fd base : ℕ) : Answers where
  socket := .ok fd
  ioctl := fun _ => .ok 1
  version := .ok ()
  rxRing := .ok ()
  mmap := .ok base
  vector := true
  bind := .ok ()
  busyPoll := .ok ()
  strerror := fun _ => "Operation not permitted"

/-- Every call succeeds but the last one. -/
def noBusyPoll : Answers := { allGranted 3 4096 with busyPoll := .error 1 }

/-- A ring on the stack; and `bench1_throughput` leaves its descriptor and its mapping behind if the kernel
refuses `SO_BUSY_POLL`. -/
theorem rings_accounted_lost :
    ∃ s, Rings.Steps (.init ⟨fun _ => none, fun _ => none⟩) s ∧ s.live.length = 1 ∧ s.lost.length = 1 ∧
      Held ⟨fun _ => none, fun _ => none⟩ s.sys (s.live ++ s.lost) := by
  have apart : System.Apart ⟨fun _ => none, fun _ => none⟩ :=
    fun _ _ _ _ _ mem => (Option.some_ne_none _ mem.symm).elim
  have first : Rings.Steps (.init ⟨fun _ => none, fun _ => none⟩)
      ((Rings.init ⟨fun _ => none, fun _ => none⟩).onStack (allGranted 4 (1 <<< 40)) ['l', 'o'] 64) :=
    .single (.onStack _ _ _ ⟨fun _ _ => rfl, fun _ _ => rfl, nofun⟩)
  have second := first.tail (.behindPointer noBusyPoll ['l', 'o'] 64 ⟨?_, ?_, ?_⟩)
  · exact ⟨_, second, by rfl, by rfl, (rings_accounted apart second).1⟩
  · rintro _ ⟨⟩
    rfl
  · rintro _ ⟨⟩
    rfl
  · rintro _ ⟨⟩ base len mem
    have mem : Function.update (fun _ => none) (1 <<< 40) (some (ringBytesOf 64).toNat) base = some len := mem
    rcases eq_or_ne base (1 <<< 40) with rfl | off
    · exact .inl (by decide)
    · rw [Function.update_of_ne off] at mem
      cases mem

end UxNet.PacketRing
