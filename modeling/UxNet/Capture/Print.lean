import UxNet.Capture.Poll

/-!
# What `capture` prints

The loop of `capture.cpp`: for every frame with a valid UDP datagram a line with its addresses, ports and
payload length, about once a second a line with the rate, the total and the drops, and at the end the
total and the drops. The clock may read anything, and `SIGINT` may come at any time. A line is modelled by
the values printed in it.

The frame is parsed where it lies in the ring, so what is printed for it depends on its slot, also where
the slot has bytes beyond `captured_len` (`describe`).
-/

namespace UxNet.Printing

open PacketRing (Arrival)
open Packet (parse)
open Poll (Seen seen losing Program)

/-- The values printed for a datagram. -/
structure Datagram where
  srcIp : BitVec 32
  srcPort : BitVec 16
  dstIp : BitVec 32
  dstPort : BitVec 16
  payloadLen : BitVec 64
deriving DecidableEq, Repr

/-- A line of the output; `time` is what `CLOCK_REALTIME` read. -/
inductive Line where
  | packet (time : BitVec 64) (d : Datagram)
  | rate (perSec total drops : BitVec 64)
  | summary (total drops : BitVec 64)
deriving DecidableEq, Repr

/-- Where the loop is: at its test, about to call `receive`, about to look at the clock, at its end. -/
inductive Place where
  | top
  | poll
  | status
  | done
deriving DecidableEq, Repr

/-- The variables of `main`, and what it has printed. -/
structure Vars where
  place : Place
  start : BitVec 64
  now : BitVec 64
  lastTick : BitVec 64
  total : BitVec 64
  lastTotal : BitVec 64
  out : List Line
deriving DecidableEq, Repr

/-- The variables before the loop. -/
def Vars.init (start : BitVec 64) : Vars where
  place := .top
  start := start
  now := start
  lastTick := start
  total := 0
  lastTotal := 0
  out := []

/-- The values of the line for a frame; none if the frame is not printed. -/
def describe (f : Seen) : Option Datagram :=
  let p := (parse (f.capturedLen.setWidth 64)).run f.view
  if p.valid && p.hasUdp then
    some
      { srcIp := p.ip.srcIp.run f.view
        srcPort := p.udp.srcPort.run f.view
        dstIp := p.ip.dstIp.run f.view
        dstPort := p.udp.dstPort.run f.view
        payloadLen := p.udp.payloadLen.run f.view }
  else none

/-- The body of `if (ring.receive(frame))`. -/
def Vars.take (v : Vars) (f : Seen) (time : BitVec 64) : Vars :=
  { v with
    place := .status
    total := v.total + 1
    out := v.out ++ ((describe f).map (Line.packet time)).toList }

/-- The test of the loop: `g_stop`, and then the clock. -/
def Vars.test (v : Vars) (duration : BitVec 32) (stop : Bool) (now drops : BitVec 64) : Vars :=
  if stop || duration.signExtend 64 * 1000000000 ≤ now - v.start then
    { v with place := .done, out := v.out ++ [.summary v.total drops] }
  else { v with place := .poll, now := now }

/-- The end of an iteration. -/
def Vars.status (v : Vars) (drops : BitVec 64) : Vars :=
  if 1000000000 ≤ v.now - v.lastTick then
    { v with
      place := .top
      out := v.out ++ [.rate (v.total - v.lastTotal) v.total drops]
      lastTick := v.now
      lastTotal := v.total }
  else { v with place := .top }

/-- What `main` does outside of `receive`, the frame and `release`. -/
inductive Other (duration : BitVec 32) : Vars → BitVec 64 → Vars → Prop where
  | test {v drops} (stop : Bool) (now : BitVec 64) :
    v.place = .top →
    Other duration v drops (v.test duration stop now drops)
  | status {v drops} :
    v.place = .status →
    Other duration v drops (v.status drops)

/-- The loop of `main`. -/
def main (duration : BitVec 32) : Program Vars where
  polls := fun v => v.place = .poll
  miss := fun v => { v with place := .status }
  take := fun v f v' => ∃ time, v' = v.take f time
  other := Other duration

/-! ## The log -/

/-- The datagrams printed. -/
def packets (out : List Line) : List Datagram :=
  out.filterMap fun
    | .packet _ d => some d
    | _ => none

/-- The rates printed. -/
def rates (out : List Line) : List (BitVec 64) :=
  out.filterMap fun
    | .rate perSec _ _ => some perSec
    | _ => none

/-- The total of the last line with a rate. -/
def lastTotal (out : List Line) : BitVec 64 :=
  out.foldl (fun t line => match line with
    | .rate _ total _ => total
    | _ => t) 0

/-- The datagrams among some frames. -/
def datagrams (frames : List Arrival) : List Datagram := frames.filterMap fun a => describe (seen a)

/-- `total` and `drops` are those of the frames whose datagrams are printed before. -/
def Exact (frames : List Arrival) (before : List Line) (total drops : BitVec 64) : Prop :=
  ∃ m ≤ frames.length, total = BitVec.ofNat 64 m ∧ packets before = datagrams (frames.take m) ∧
    drops = losing (frames.take m)

/-- What a line says, given those before and after it. -/
def Told (frames : List Arrival) (before : List Line) (after : List Line) : Line → Prop
  | .packet _ _ => True
  | .rate perSec total drops => Exact frames before total drops ∧ perSec = total - lastTotal before
  | .summary total drops => Exact frames before total drops ∧ after = []

/-- What holds when the loop has been given `i` frames. -/
structure Log (frames : List Arrival) (i : ℕ) (v : Vars) : Prop where
  le : i ≤ frames.length
  count : v.total = BitVec.ofNat 64 i
  printed : packets v.out = datagrams (frames.take i)
  last : v.lastTotal = lastTotal v.out
  sum : (rates v.out).sum = lastTotal v.out
  told : ∀ before line after, v.out = before ++ line :: after → Told frames before after line
  running : v.place ≠ .done → ∀ total drops, .summary total drops ∉ v.out
  ended : v.place = .done → ∃ before drops, v.out = before ++ [.summary v.total drops]

section Lines

variable {frames : List Arrival} {out : List Line}

/-- The datagrams printed, line by line. -/
lemma packets_concat (out : List Line) (line : Line) :
    packets (out ++ [line]) = packets out ++ packets [line] := List.filterMap_append ..

/-- The rates printed, line by line. -/
lemma rates_concat (out : List Line) (line : Line) :
    rates (out ++ [line]) = rates out ++ rates [line] := List.filterMap_append ..

/-- Only a rate line changes the last total. -/
lemma lastTotal_concat (out : List Line) (line : Line) : lastTotal (out ++ [line])
    = match line with
      | .rate _ total _ => total
      | _ => lastTotal out := by
  rw [lastTotal, List.foldl_append]
  rfl

/-- One more line, after lines none of which is the last. -/
lemma told_concat (told : ∀ before line after, out = before ++ line :: after → Told frames before after line)
    (running : ∀ total drops, .summary total drops ∉ out) {last : Line} (new : Told frames out [] last) :
    ∀ before line after, out ++ [last] = before ++ line :: after → Told frames before after line := by
  intro before line after split
  rcases List.eq_nil_or_concat after with rfl | ⟨rest, final, rfl⟩
  · obtain ⟨rfl, same⟩ := List.append_inj' split rfl
    cases same
    exact new
  · rw [List.concat_eq_append, ← List.cons_append, ← List.append_assoc] at split
    obtain ⟨rfl, _⟩ := List.append_inj' split rfl
    have here := told before line rest rfl
    cases line with
    | packet _ _ => trivial
    | rate _ _ _ => exact here
    | summary total drops =>
      exact absurd (List.mem_append_right _ (List.mem_cons_self ..)) (running total drops)

end Lines

namespace Log

variable {frames : List Arrival} {i : ℕ} {v : Vars} {duration : BitVec 32}

/-- Nothing has been taken or printed. -/
lemma init (frames : List Arrival) (start : BitVec 64) : Log frames 0 (.init start) where
  le := Nat.zero_le _
  count := rfl
  printed := rfl
  last := rfl
  sum := rfl
  told := by
    intro before line after split
    exact absurd split.symm (by simp [Vars.init])
  running := nofun
  ended := nofun

/-- The total and the drops are exact when they are printed. -/
lemma exact (h : Log frames i v) : Exact frames v.out v.total (losing (frames.take i)) :=
  ⟨i, h.le, h.count, h.printed, rfl⟩

/-- Moving on within an iteration prints nothing. -/
lemma goto (h : Log frames i v) (on : v.place ≠ .done) (place : Place) (on' : place ≠ .done)
    (now : BitVec 64) : Log frames i { v with place := place, now := now } where
  le := h.le
  count := h.count
  printed := h.printed
  last := h.last
  sum := h.sum
  told := h.told
  running := fun _ => h.running on
  ended := fun e => absurd e on'

/-- A frame is counted, and printed if it is a datagram. -/
lemma take (h : Log frames i v) (on : v.place ≠ .done) {a : Arrival} (get : frames[i]? = some a)
    (time : BitVec 64) : Log frames (i + 1) (v.take (seen a) time) := by
  have inside := (List.getElem?_eq_some_iff.mp get).1
  have count : v.total + 1 = BitVec.ofNat 64 (i + 1) := by
    rw [h.count, BitVec.ofNat_add]
    rfl
  have more : datagrams (frames.take (i + 1))
      = datagrams (frames.take i) ++ [a].filterMap fun a => describe (seen a) := by
    rw [datagrams, List.take_add_one, get, Option.toList_some, List.filterMap_append]
    rfl
  unfold Vars.take
  cases found : describe (seen a) with
  | none =>
    simp only [List.filterMap_cons, found, List.filterMap_nil, List.append_nil] at more
    rw [Option.map_none, Option.toList_none, List.append_nil]
    exact ⟨inside, count, h.printed.trans more.symm, h.last, h.sum, h.told, fun _ => h.running on, nofun⟩
  | some d =>
    simp only [List.filterMap_cons, found, List.filterMap_nil, ← h.printed] at more
    rw [Option.map_some, Option.toList_some]
    refine ⟨inside, count, ?_, ?_, ?_, told_concat h.told (h.running on) trivial, fun _ total drops => ?_,
      nofun⟩
    · rw [packets_concat, more]
      rfl
    · rw [lastTotal_concat]
      exact h.last
    · rw [lastTotal_concat, rates_concat]
      exact (congrArg List.sum (List.append_nil _)).trans h.sum
    · intro mem
      rcases List.mem_append.mp mem with old | new
      · exact h.running on total drops old
      · exact nomatch List.mem_singleton.mp new

/-- The test at the top of the loop may end it with the summary. -/
lemma test (h : Log frames i v) (on : v.place ≠ .done) (stop : Bool) (now : BitVec 64) :
    Log frames i (v.test duration stop now (losing (frames.take i))) := by
  unfold Vars.test
  split
  · refine ⟨h.le, h.count, ?_, ?_, ?_, told_concat h.told (h.running on) ⟨h.exact, rfl⟩,
      fun ne => absurd rfl ne, fun _ => ⟨v.out, _, rfl⟩⟩
    · rw [packets_concat]
      exact (List.append_nil _).trans h.printed
    · rw [lastTotal_concat]
      exact h.last
    · rw [lastTotal_concat, rates_concat]
      exact (congrArg List.sum (List.append_nil _)).trans h.sum
  · exact h.goto on _ (by decide) now

/-- The rate line tells the frames before it. -/
lemma status (h : Log frames i v) (on : v.place ≠ .done) :
    Log frames i (v.status (losing (frames.take i))) := by
  unfold Vars.status
  split
  · refine ⟨h.le, h.count, ?_, ?_, ?_, told_concat h.told (h.running on) ⟨h.exact, ?_⟩,
      fun _ total drops => ?_, nofun⟩
    · rw [packets_concat]
      exact (List.append_nil _).trans h.printed
    · rw [lastTotal_concat]
    · rw [lastTotal_concat, rates_concat, List.sum_append, h.sum, h.last]
      show lastTotal v.out + (v.total - lastTotal v.out + 0#64) = v.total
      rw [BitVec.add_zero, BitVec.add_comm, BitVec.sub_add_cancel]
    · rw [h.last]
    · intro mem
      rcases List.mem_append.mp mem with old | new
      · exact h.running on total drops old
      · exact nomatch List.mem_singleton.mp new
  · exact h.goto on _ (by decide) v.now

/-- What one step of the loop preserves. -/
lemma step {x y : ℕ × Vars} (h : Log frames x.1 x.2) (st : (main duration).Step frames x y) :
    Log frames y.1 y.2 := by
  cases st with
  | @miss i v polls =>
    have on : v.place ≠ .done := fun e => nomatch polls.symm.trans e
    exact h.goto on _ (by decide) v.now
  | @take i v a v' polls get did =>
    have on : v.place ≠ .done := fun e => nomatch polls.symm.trans e
    obtain ⟨time, rfl⟩ := did
    exact h.take on get time
  | @other i v v' did =>
    cases did with
    | test stop now here => exact h.test (fun e => nomatch here.symm.trans e) stop now
    | status here => exact h.status fun e => nomatch here.symm.trans e

/-- The log tells every run. -/
lemma steps {start : BitVec 64} {x : ℕ × Vars} (run : (main duration).Steps frames (0, .init start) x) :
    Log frames x.1 x.2 := by
  induction run with
  | refl => exact init frames start
  | tail _ st ih => exact ih.step st

end Log

/-- For every run of `capture` with a kernel that publishes frames at any time, whatever the clocks read:
the datagrams printed are those among the frames taken so far, each once and in the order of arrival;
every line with a rate has the total and the drops of exactly the frames printed before it, and the rates
add up to the last total printed; the summary is the last line, and its total counts the frames that were
given back. -/
theorem capture_log {n : ℕ} [NeZero n] {slots : Fin n → PacketRing.Slot} {duration : BitVec 32}
    {start : BitVec 64} {s : Poll.State Vars n}
    (run : Poll.State.Steps (main duration) (.init slots (.init start)) s) :
    (∃ i ≤ s.ring.published.length, s.acc.total = BitVec.ofNat 64 i ∧
      packets s.acc.out = datagrams (s.ring.published.take i) ∧
      (s.phase = .poll → i = s.ring.released.length)) ∧
    (rates s.acc.out).sum = lastTotal s.acc.out ∧
    (∀ before line after, s.acc.out = before ++ line :: after →
      Told s.ring.published before after line) ∧
    (s.acc.place = .done → ∃ before drops, s.acc.out = before ++ [.summary s.acc.total drops]) := by
  obtain ⟨i, alone, given⟩ := Poll.steps_refine run
  have log := Log.steps alone
  exact ⟨⟨i, log.le, log.count, log.printed, given⟩, log.sum, log.told, log.ended⟩

/-- A datagram of no bytes from 10.0.0.1 port 9 to 10.0.0.2 port 7. -/
def datagramFrame : Arrival where
  flags := 0
  len := 42
  snaplen := 42
  mac := 82
  bytes := [0, 0, 0, 0, 0, 0, 0, 0, 0, 0, 0, 0, 0x08, 0x00,
    0x45, 0, 0, 28, 0, 0, 0, 0, 64, 17, 0x66, 0xcf, 10, 0, 0, 1, 10, 0, 0, 2,
    0, 9, 0, 7, 0, 8, 0, 0]

/-- The datagram is printed, and counted in the summary. -/
theorem capture_log_one_frame : ∃ s : Poll.State Vars 1,
    Poll.State.Steps (main 10) (.init (fun _ => ⟨0, 0, 0, 0, []⟩) (.init 0)) s ∧
      s.acc.out = [.packet 5 ⟨0x0A000001, 9, 0x0A000002, 7, 0⟩, .summary 1 0] ∧
      (∀ before line after, s.acc.out = before ++ line :: after →
        Told s.ring.published before after line) := by
  have fits : datagramFrame.Fits := ⟨by decide, by decide⟩
  have run : Poll.State.Steps (main 10) (.init (fun _ : Fin 1 => ⟨0, 0, 0, 0, []⟩) (.init 0)) _ :=
    .head (.kernel (.publish datagramFrame rfl) fun _ eq => Option.some.inj eq ▸ fits) <|
    .head (.other rfl rfl (.test false 0 rfl)) <|
    .head (.reads rfl (fun _ => rfl) (.receive rfl (by decide))) <|
    .head (.reads rfl nofun (.readMac rfl)) <|
    .head (.reads rfl nofun (.readLen rfl)) <|
    .head (.got rfl (.readSnaplen rfl)) <|
    .head (.take rfl rfl ⟨5, rfl⟩) <|
    .head (.gives rfl (.release rfl rfl)) <|
    .head (.moved rfl (.advance rfl)) <|
    .head (.other rfl rfl (.status rfl)) <|
    .head (.other rfl rfl (.test true 0 rfl)) .refl
  exact ⟨_, run, by decide +kernel, (capture_log run).2.2.1⟩

end UxNet.Printing
