import Aurora.Lib.Run
import Aurora.Kernel.Task

/-!
# Submitting commands to an NVMe controller

The driver (`nvme.c`) puts a command into the submission queue, rings the doorbell and waits for
the completion. It takes the queue to be full when the tail would meet the head; but nothing
moves the head.

## Main definitions

* `Sys`: the two queues, and the controller's place in them.
* `nvmeAllocCid`, `nvmeWaitCompletion`, `nvmeIoSubmit`: the driver.
* `answer`: a controller that answers each command with success.
* `succeeds_iff`: how many calls succeed.
-/

namespace Aurora.Nvme

open Lib Function List

/-- `struct nvme_sqe`, a command. -/
structure Sqe where
  opcode : UInt8
  cid : UInt16
  nsid : UInt32
  prp1 : UInt64
  prp2 : UInt64
  cdw10 : UInt32
  cdw11 : UInt32
  cdw12 : UInt16

/-- `struct nvme_cqe`, a completion; the lowest bit of the status is the phase tag. -/
structure Cqe where
  cid : UInt16
  status : UInt16

/-- `NVME_STATUS_SC_MASK`. -/
def statusScMask : UInt16 := 0x03FE

/-- The submission queue and the completion queue, which have `numEntries` entries each, with the
indices that the driver keeps, and the counter for command identifiers; and the controller, with
the index of the command it fetches next, that of the completion it posts next, and its phase
tag. -/
structure Sys where
  numEntries : ℕ
  sq : ℕ → Sqe
  sqTail : ℕ
  sqHead : ℕ
  cq : ℕ → Cqe
  cqHead : ℕ
  phase : UInt16
  cidCounter : UInt16
  fetch : ℕ
  post : ℕ
  tag : UInt16

/-- `nvme_queue_init` for both queues, and the controller after its reset. -/
def nvmeQueueInit (numEntries : ℕ) : Sys where
  numEntries := numEntries
  sq := fun _ => ⟨0, 0, 0, 0, 0, 0, 0, 0⟩
  sqTail := 0
  sqHead := 0
  cq := fun _ => ⟨0, 0⟩
  cqHead := 0
  phase := 1
  cidCounter := 1
  fetch := 0
  post := 0
  tag := 1

/-- `nvme_alloc_cid` when nothing else uses the counter: the compare-and-swap with `0` fails, as
the counter has just been incremented. -/
def nvmeAllocCid (s : Sys) : Sys × UInt16 :=
  if s.cidCounter = 0 then ({ s with cidCounter := 2 }, 1)
  else ({ s with cidCounter := s.cidCounter + 1 }, s.cidCounter)

/-- The loop of `nvme_wait_completion`, which polls `k` times. -/
def waitLoop (s : Sys) : ℕ → Sys × Option Cqe
  | 0 => (s, none)
  | k + 1 =>
    let entry := s.cq s.cqHead
    if entry.status &&& 1 = s.phase then
      let head := (s.cqHead + 1) % s.numEntries
      ({ s with cqHead := head, phase := if head = 0 then s.phase ^^^ 1 else s.phase }, some entry)
    else waitLoop s k

/-- `nvme_wait_completion`. -/
def nvmeWaitCompletion (s : Sys) : Sys × Option Cqe := waitLoop s 1000000

/-- The loop that waits for a free slot, which polls `k` times. -/
def fullLoop (s : Sys) (nextTail : ℕ) : ℕ → Sys × Bool
  | 0 => (s, decide (nextTail ≠ s.sqHead))
  | k + 1 =>
    if nextTail = s.sqHead then fullLoop (nvmeWaitCompletion s).1 nextTail k else (s, true)

/-- The controller fetches the command that the doorbell announces, and posts a completion: its
identifier, success, and the phase tag. -/
def answer (s : Sys) : Sys :=
  let post := (s.post + 1) % s.numEntries
  { s with
    cq := Function.update s.cq s.post ⟨(s.sq s.fetch).cid, s.tag⟩
    fetch := (s.fetch + 1) % s.numEntries
    post := post
    tag := if post = 0 then s.tag ^^^ 1 else s.tag }

/-- The arguments of a call, the block size of the namespace, and what `alloc_page` answers. -/
structure Request where
  opcode : UInt8
  nsid : UInt32
  lba : UInt64
  numBlocks : UInt32
  buf : UInt64
  blockSize : UInt32
  page : Option UInt64

/-- The bytes behind the first page of the buffer. -/
def Request.remaining (r : Request) : ℕ :=
  r.numBlocks.toNat * r.blockSize.toNat - (0x1000 - r.buf.toNat % 0x1000)

/-- The pages behind the first one. -/
def Request.remainingPages (r : Request) : ℕ := (r.remaining + 0xFFF) / 0x1000

/-- The address of the page after the one at which the buffer begins. -/
def Request.secondPage (r : Request) : UInt64 := (r.buf + 0x1000) &&& ~~~0xFFF

/-- The second page pointer: none, the second page, or that of a list of pages. -/
def Request.prp2 (r : Request) : Option UInt64 :=
  if r.remaining = 0 then some 0
  else if r.remainingPages = 1 then some r.secondPage
  else r.page

/-- The command for a request. -/
def Request.cmd (r : Request) (cid : UInt16) (prp2 : UInt64) : Sqe where
  opcode := r.opcode
  cid := cid
  nsid := r.nsid
  prp1 := r.buf
  prp2 := prp2
  cdw10 := r.lba.toUInt32
  cdw11 := (r.lba >>> 32).toUInt32
  cdw12 := (r.numBlocks - 1).toUInt16

/-- The last part of `nvme_io_submit`: the command is written at the tail, and its completion
awaited. -/
def submit (s : Sys) (cmd : Sqe) (nextTail : ℕ) : Sys × ℤ :=
  let s := { s with sq := Function.update s.sq s.sqTail cmd, sqTail := nextTail }
  match nvmeWaitCompletion (answer s) with
  | (s, none) => (s, -1)
  | (s, some cqe) => (s, if cqe.status &&& statusScMask ≠ 0 then -1 else 0)

/-- `nvme_io_submit` with a controller and a namespace. -/
def nvmeIoSubmit (s : Sys) (r : Request) : Sys × ℤ :=
  if r.buf = 0 ∨ r.numBlocks = 0 then (s, -1)
  else if r.buf &&& 0x3 ≠ 0 then (s, -1)
  else
    let (s, cid) := nvmeAllocCid s
    match r.prp2 with
    | none => (s, -Errno.code Errno.ENOMEM)
    | some prp2 =>
      let nextTail := (s.sqTail + 1) % s.numEntries
      match fullLoop s nextTail 1000000 with
      | (s, false) => (s, - Errno.code Errno.EIO)
      | (s, true) => submit s (r.cmd cid prp2) nextTail

/-- The arguments are in order, and there is memory for a list of pages if one is needed. -/
structure Request.Valid (r : Request) : Prop where
  buf : r.buf ≠ 0
  numBlocks : r.numBlocks ≠ 0
  aligned : r.buf &&& 0x3 = 0
  prp2 : r.prp2 ≠ none

/-- One call. -/
def step (s : Sys) (r : Request) : Option Sys := some (nvmeIoSubmit s r).1

/-- The call returns success. -/
def Succeeds (s : Sys) (r : Request) : Prop := (nvmeIoSubmit s r).2 = 0

/-! ## How many calls succeed -/

/-- The state after `k` calls that succeeded. -/
structure After (n k : ℕ) (s : Sys) : Prop where
  num : s.numEntries = n
  tail : s.sqTail = k
  head : s.sqHead = 0
  cqHead : s.cqHead = k
  phase : s.phase = 1
  post : s.post = k
  tag : s.tag = 1

section

variable {s s' : Sys} {n k : ℕ} {r : Request}

lemma after_init (n : ℕ) : After n 0 (nvmeQueueInit n) := ⟨rfl, rfl, rfl, rfl, rfl, rfl, rfl⟩

/-- Polling does not move the head of the submission queue. -/
lemma waitLoop_sqHead (s : Sys) (j : ℕ) : (waitLoop s j).1.sqHead = s.sqHead := by
  induction j with
  | zero => rfl
  | succ j ih =>
    unfold waitLoop
    simp only
    split
    · rfl
    · exact ih

/-- **A full queue stays full**: no polling moves its head. -/
lemma fullLoop_stuck {nextTail : ℕ} (h : nextTail = s.sqHead) (j : ℕ) :
    (fullLoop s nextTail j).2 = false ∧ (fullLoop s nextTail j).1.sqHead = s.sqHead := by
  induction j generalizing s with
  | zero => exact ⟨decide_eq_false (not_not.2 h), rfl⟩
  | succ j ih =>
    have hhead : (nvmeWaitCompletion s).1.sqHead = s.sqHead := waitLoop_sqHead s 1000000
    rw [fullLoop, if_pos h]
    obtain ⟨hstuck, hkeep⟩ := ih (h.trans hhead.symm)
    exact ⟨hstuck, hkeep.trans hhead⟩

lemma fullLoop_free {nextTail : ℕ} (h : nextTail ≠ s.sqHead) (j : ℕ) :
    fullLoop s nextTail (j + 1) = (s, true) := by
  rw [fullLoop, if_neg h]

/-- A completion with the expected phase tag is taken at once. -/
lemma nvmeWaitCompletion_ready (hready : (s.cq s.cqHead).status &&& 1 = s.phase) :
    nvmeWaitCompletion s = ({ s with
      cqHead := (s.cqHead + 1) % s.numEntries
      phase := if (s.cqHead + 1) % s.numEntries = 0 then s.phase ^^^ 1 else s.phase },
      some (s.cq s.cqHead)) := by
  show waitLoop s (999999 + 1) = _
  rw [waitLoop]
  simp only
  rw [if_pos hready]

/-- The completion that the controller posts is the one that the driver waits for. -/
lemma After.submit (h : After n k s) (hk : k + 1 < n) (cmd : Sqe) :
    ∃ s', submit s cmd (k + 1) = (s', 0) ∧ After n (k + 1) s' := by
  set s1 := { s with
    sq := update s.sq s.sqTail cmd, sqTail := k + 1 } with hs1
  have hmod : (k + 1) % n = k + 1 := Nat.mod_eq_of_lt hk
  have hcq : (answer s1).cq (answer s1).cqHead = ⟨(s1.sq s1.fetch).cid, 1⟩ := by
    have hpost : s1.post = k ∧ s1.cqHead = k ∧ s1.tag = 1 := by
      rw [hs1]
      exact ⟨h.post, h.cqHead, h.tag⟩
    show update s1.cq s1.post ⟨_, s1.tag⟩ s1.cqHead = _
    simp [hpost.1, hpost.2.1, hpost.2.2]
  have hphase : (answer s1).phase = 1 := by
    rw [hs1]
    exact h.phase
  have hready : ((answer s1).cq (answer s1).cqHead).status &&& 1 = (answer s1).phase := by
    rw [hcq, hphase]
    show (1 : UInt16) &&& 1 = 1
    decide
  have hrun := nvmeWaitCompletion_ready hready
  have hhead : ((answer s1).cqHead + 1) % (answer s1).numEntries = k + 1 := by
    rw [hs1]
    show (s.cqHead + 1) % s.numEntries = k + 1
    rw [h.cqHead, h.num, hmod]
  have hpost : (s.post + 1) % s.numEntries = k + 1 := by
    rw [h.post, h.num, hmod]
  rw [hhead, if_neg (Nat.succ_ne_zero k), hcq] at hrun
  refine ⟨{ answer s1 with cqHead := k + 1 }, ?_, ?_⟩
  · rw [Nvme.submit]
    simp only
    rw [← hs1, hrun]
    simp only
    rw [if_neg (by decide)]
  · rw [hs1]
    refine ⟨h.num, rfl, h.head, rfl, h.phase, hpost, ?_⟩
    show (if (s.post + 1) % s.numEntries = 0 then s.tag ^^^ 1 else s.tag) = 1
    rw [hpost, if_neg (Nat.succ_ne_zero k)]
    exact h.tag

/-- The command is ready: there was memory, and it has an identifier. -/
lemma nvmeIoSubmit_eq (hr : r.Valid) (s : Sys) :
    ∃ s1 cid prp2, s1 = { s with cidCounter := s1.cidCounter } ∧
      nvmeIoSubmit s r = match fullLoop s1 ((s.sqTail + 1) % s.numEntries) 1000000 with
        | (s2, false) => (s2, - Errno.code Errno.EIO)
        | (s2, true) => Nvme.submit s2 (r.cmd cid prp2) ((s.sqTail + 1) % s.numEntries) := by
  obtain ⟨prp2, hprp2⟩ := Option.ne_none_iff_exists'.1 hr.prp2
  obtain ⟨s1, cid, hcid, hs1⟩ : ∃ s1 cid, nvmeAllocCid s = (s1, cid) ∧
      s1 = { s with cidCounter := s1.cidCounter } := by
    unfold nvmeAllocCid
    split
    · exact ⟨_, _, rfl, rfl⟩
    · exact ⟨_, _, rfl, rfl⟩
  have hsame : s1.sqTail = s.sqTail ∧ s1.numEntries = s.numEntries := by
    rw [hs1]
    exact ⟨rfl, rfl⟩
  refine ⟨s1, cid, prp2, hs1, ?_⟩
  rw [nvmeIoSubmit, if_neg (not_or.2 ⟨hr.buf, hr.numBlocks⟩), if_neg (not_not.2 hr.aligned), hcid]
  simp only [hprp2]
  rw [hsame.1, hsame.2]

lemma After.of_cid (h : After n k s) (hs' : s' = { s with cidCounter := s'.cidCounter }) :
    After n k s' := by
  rw [hs']
  exact ⟨h.num, h.tail, h.head, h.cqHead, h.phase, h.post, h.tag⟩

/-- **A call succeeds** as long as the tail has not come round to the head. -/
lemma After.succeeds (h : After n k s) (hr : r.Valid) (hk : k + 1 < n) :
    Succeeds s r ∧ After n (k + 1) (nvmeIoSubmit s r).1 := by
  obtain ⟨s1, cid, prp2, hs1, hrun⟩ := nvmeIoSubmit_eq hr s
  have h1 := h.of_cid hs1
  have hnext : (s.sqTail + 1) % s.numEntries = k + 1 := by
    rw [h.tail, h.num]
    exact Nat.mod_eq_of_lt hk
  have hfree : k + 1 ≠ s1.sqHead := by
    rw [h1.head]
    exact Nat.succ_ne_zero k
  rw [hnext, fullLoop_free hfree 999999] at hrun
  obtain ⟨_, hsubmit, h'⟩ := h1.submit hk (r.cmd cid prp2)
  rw [Succeeds, hrun]
  simp only [hsubmit]
  exact ⟨trivial, h'⟩

/-- **The next call fails**: the driver waits for a head that does not move. -/
lemma After.fails (h : After n k s) (hr : r.Valid) (hk : k + 1 = n) :
    (nvmeIoSubmit s r).2 = - Errno.code Errno.EIO := by
  obtain ⟨s1, _, _, hs1, hrun⟩ := nvmeIoSubmit_eq hr s
  have h1 := h.of_cid hs1
  have hnext : (s.sqTail + 1) % s.numEntries = s1.sqHead := by
    rw [h.tail, h.num, hk, h1.head]
    exact Nat.mod_self n
  have hstuck := (fullLoop_stuck hnext 1000000).1
  rw [hrun]
  generalize fullLoop s1 ((s.sqTail + 1) % s.numEntries) 1000000 = p at hstuck
  obtain ⟨_, b⟩ := p
  have hb : b = false := hstuck
  rw [hb]

/-- Of the calls after `k` others, those succeed for which there is a slot. -/
lemma After.along_iff (h : After n k s) (hk : k < n) {rs : List Request}
    (hrs : ∀ r ∈ rs, r.Valid) : Along step Succeeds s rs ↔ k + rs.length < n := by
  induction rs generalizing s k with
  | nil => exact ⟨fun _ => hk, fun _ => trivial⟩
  | cons r rs ih =>
    have hr := hrs r mem_cons_self
    rw [length_cons]
    by_cases hlast : k + 1 < n
    · obtain ⟨hsucc, hnext⟩ := h.succeeds hr hlast
      have htail := ih hnext hlast fun r' hr' => hrs r' (mem_cons_of_mem _ hr')
      constructor
      · rintro ⟨-, hrest⟩
        have hlen := htail.1 hrest
        omega
      · intro hlen
        exact ⟨hsucc, htail.2 (by omega)⟩
    · have hfail := h.fails hr (by omega)
      constructor
      · rintro ⟨hsucc, -⟩
        rw [Succeeds, hfail] at hsucc
        cases hsucc
      · intro hlen
        omega

end

/-- **All calls succeed** exactly if there are fewer than the queue has entries. -/
theorem succeeds_iff {n : ℕ} (hn : 2 ≤ n) (rs : List Request) (hrs : ∀ r ∈ rs, r.Valid) :
    Along step Succeeds (nvmeQueueInit n) rs ↔ rs.length < n := by
  have hiff := (after_init n).along_iff (by omega) hrs
  rwa [Nat.zero_add] at hiff

/-- Reading one block of 512 bytes into a page. -/
def readBlock : Request := ⟨2, 1, 0, 1, 0x1000, 512, some 0x2000⟩

lemma valid_readBlock : readBlock.Valid := ⟨by decide, by decide, by decide, by decide⟩

/-- With two entries, the second call never finds a free slot. -/
theorem not_succeeds_second : ¬ Along step Succeeds (nvmeQueueInit 2) [readBlock, readBlock] := by
  rintro ⟨-, hsecond, -⟩
  have hfirst := ((after_init 2).succeeds valid_readBlock (by decide)).2
  have hfail := hfirst.fails valid_readBlock (by decide)
  cases hfail.symm.trans hsecond

/-- With three entries, two calls succeed. -/
theorem succeeds_iff_second : Along step Succeeds (nvmeQueueInit 3) [readBlock, readBlock] := by
  refine (succeeds_iff (by decide) _ fun r hr => ?_).2 (by decide)
  simp only [mem_cons, not_mem_nil, or_false, or_self] at hr
  rw [hr]
  exact valid_readBlock

end Aurora.Nvme
