import Aurora.Kernel.Pipe

/-!
# A pipe is a FIFO

Every section of the pipe code does one of three things to the data of the ring:
nothing, one `copyOut` that is handed to a reader, or one `copyIn` taken from a
writer. `step_ringEffect` says so once; the ring invariant and the history of the
pipe follow from what the two copies do to the FIFO view.

## Main definitions

* `buffered r`: the bytes in the ring, oldest first.
* `RingEffect s s'`: what a step may do to the data and the history.
* `Fifo`: the invariant.
* `pipe_fifo`: it holds after every schedule.
-/

namespace Aurora.Pipe

variable {c : CallId} {call : Call} {r : PipeRing} {s s' : PipeState}

open Lib Option

/-- The bytes in the ring, oldest first. -/
def buffered (r : PipeRing) : List UInt8 := window pipeBufSize r.buf r.head r.count

/-- Two rings with the same buffer and the same three counters. -/
structure SameData (r r' : PipeRing) : Prop where
  buf : r'.buf = r.buf
  head : r'.head = r.head
  tail : r'.tail = r.tail
  count : r'.count = r.count

/-- What one step may do to the data of the ring and to the history. -/
inductive RingEffect (s s' : PipeState) : Prop
  /-- The step leaves both alone. -/
  | same (ring : SameData s.ring s'.ring) (delivered : s'.delivered = s.delivered)
      (appended : s'.appended = s.appended)
  /-- The step copies out to a reader. -/
  | read (count : ℕ) (ring : SameData (copyOut s.ring count).2 s'.ring)
      (delivered : s'.delivered = s.delivered ++ (copyOut s.ring count).1)
      (appended : s'.appended = s.appended)
  /-- The step copies in from a writer. -/
  | write (rest : List UInt8) (ring : SameData (copyIn s.ring rest).2 s'.ring)
      (delivered : s'.delivered = s.delivered)
      (appended : s'.appended = s.appended ++ rest.take (copyIn s.ring rest).1)

lemma SameData.refl (r : PipeRing) : SameData r r := ⟨rfl, rfl, rfl, rfl⟩

lemma RingEffect.silent (hring : s'.ring = s.ring)
    (hdelivered : s'.delivered = s.delivered) (happended : s'.appended = s.appended) :
    RingEffect s s' :=
  .same (hring ▸ .refl _) hdelivered happended

/-! ## What each section does to the data -/

/-- The two ends, the flag `closed`, and whether the ring is freed. -/
def ends (s : PipeState) : Bool × Bool × Bool × Bool :=
  (s.ring.readOpen, s.ring.writeOpen, s.ring.closed, s.freed)

/-- What a call may do: it leaves the ends of the pipe alone. -/
def DataEffect (s s' : PipeState) : Prop := RingEffect s s' ∧ ends s' = ends s

lemma startCall_effect {rangeOk : Bool}
    (h : startCall s call rangeOk = some s') : DataEffect s s' := by
  simp only [startCall] at h
  split at h
  · cases h
  split at h
  · cases h; exact ⟨.silent rfl rfl rfl, rfl⟩
  split at h
  · cases h; exact ⟨.silent rfl rfl rfl, rfl⟩
  split at h <;> (cases h; exact ⟨.silent rfl rfl rfl, rfl⟩)

lemma pipeReadLocked_effect {count : ℕ}
    (h : pipeReadLocked s c call count = some s') : DataEffect s s' := by
  simp only [pipeReadLocked] at h
  split at h
  · obtain ⟨_, -, rfl⟩ := map_eq_some_iff.1 h
    exact ⟨.read count ⟨rfl, rfl, rfl, rfl⟩ rfl rfl, rfl⟩
  split at h
  · cases h; exact ⟨.silent rfl rfl rfl, rfl⟩
  · cases h; exact ⟨.same ⟨rfl, rfl, rfl, rfl⟩ rfl rfl, rfl⟩

lemma pipeWriteLocked_effect
    {src : List UInt8} {total : ℕ} (h : pipeWriteLocked s c call src total = some s') :
    DataEffect s s' := by
  simp only [pipeWriteLocked] at h
  split at h
  · obtain ⟨_, -, rfl⟩ := map_eq_some_iff.1 h
    split
    · exact ⟨.write (src.drop total) ⟨rfl, rfl, rfl, rfl⟩ rfl rfl, rfl⟩
    · exact ⟨.write (src.drop total) ⟨rfl, rfl, rfl, rfl⟩ rfl rfl, rfl⟩
  split at h
  · cases h; exact ⟨.silent rfl rfl rfl, rfl⟩
  · cases h; exact ⟨.same ⟨rfl, rfl, rfl, rfl⟩ rfl rfl, rfl⟩

/-- **What a section of `pipe_write` appends** are the next bytes of the caller, as many as its
count grows by; and a call that is done returns its count. -/
lemma pipeWriteLocked_total {src : List UInt8} {total : ℕ} (hop : call.op = .write src total)
    (h : pipeWriteLocked s c call src total = some s') :
    ∃ n phase, s'.appended = s.appended ++ (src.drop total).take n ∧
      s'.call c = some ⟨call.task, .write src (total + n), phase⟩ ∧
      ∀ ret, phase = .returned ret → 0 ≤ ret → ret = (total + n : ℕ) ∧ src.length ≤ total + n := by
  simp only [pipeWriteLocked] at h
  split at h
  · obtain ⟨_, -, rfl⟩ := map_eq_some_iff.1 h
    refine ⟨(copyIn s.ring (src.drop total)).1, ?_⟩
    split
    next => exact ⟨.lockTop, rfl, Function.update_self .., nofun⟩
    next hdone =>
      refine ⟨.returned _, rfl, Function.update_self .., ?_⟩
      rintro _ ⟨⟩ -
      exact ⟨by simp, not_lt.1 hdone⟩
  · refine ⟨0, ?_⟩
    split at h <;> cases h
    · refine ⟨.returned (-1), by simp [PipeState.fail, PipeState.finish, PipeState.goto], ?_, ?_⟩
      · simp [PipeState.fail, PipeState.finish, PipeState.goto, hop]
      · rintro _ ⟨⟩ hneg
        exact absurd hneg (by decide)
    · refine ⟨.linked, by simp [PipeState.block, PipeState.goto], ?_, nofun⟩
      simp [PipeState.block, PipeState.goto, hop]

lemma unlinkLocked_effect (h : unlinkLocked s c call = some s') : DataEffect s s' := by
  simp only [unlinkLocked] at h
  split at h <;>
    (obtain ⟨⟨-, _⟩, -, rfl⟩ := map_eq_some_iff.1 h
     exact ⟨.same ⟨rfl, rfl, rfl, rfl⟩ rfl rfl, rfl⟩)

lemma checkOpenSection_effect
    (h : checkOpenSection s c call = some s') : DataEffect s s' := by
  simp only [checkOpenSection] at h
  split at h
  · cases h
  · split at h
    · cases h; exact ⟨.silent rfl rfl rfl, rfl⟩
    split at h <;> (cases h; exact ⟨.silent rfl rfl rfl, rfl⟩)

lemma lockTopSection_effect (h : lockTopSection s c call = some s') : DataEffect s s' := by
  simp only [lockTopSection] at h
  split at h
  · exact pipeReadLocked_effect h
  · exact pipeWriteLocked_effect h

lemma runCall_effect (h : runCall s c call = some s') : DataEffect s s' := by
  unfold runCall at h
  -- one case for each phase
  split at h
  · split_ifs at h
    exact checkOpenSection_effect h
  · split_ifs at h
    exact lockTopSection_effect h
  · cases h
    exact ⟨.silent rfl rfl rfl, rfl⟩
  · split_ifs at h
    exact unlinkLocked_effect h
  · split_ifs at h
    cases h
    exact ⟨.silent rfl rfl rfl, rfl⟩
  · cases h

lemma pipeClose_ringEffect {readEnd : Bool}
    (h : pipeClose s readEnd = some s') : RingEffect s s' := by
  simp only [pipeClose] at h
  split at h
  · cases h; exact .silent rfl rfl rfl
  · obtain ⟨_, -, h⟩ := bind_eq_some_iff.1 h
    obtain ⟨_, -, rfl⟩ := map_eq_some_iff.1 h
    exact .same ⟨rfl, rfl, rfl, rfl⟩ rfl rfl

/-- **What a step can do to the data of the pipe.** -/
lemma step_ringEffect {e : Event} (h : step s e = some s') : RingEffect s s' := by
  cases e with
  | startRead t _ rangeOk => exact (startCall_effect h).1
  | startWrite t _ rangeOk => exact (startCall_effect h).1
  | run c =>
    obtain ⟨_, -, h⟩ := bind_eq_some_iff.1 h
    exact (runCall_effect h).1
  | close _ => exact pipeClose_ringEffect h
  | kill t _ => cases h; exact .silent rfl rfl rfl
  | takeSignals t => cases h; exact .silent rfl rfl rfl

/-! ## The ring invariant and the history -/

/-- The counters of a ring are in range and agree with each other. -/
structure RingOk (r : PipeRing) : Prop where
  head_lt : r.head < pipeBufSize
  count_le : r.count ≤ pipeBufSize
  tail_eq : r.tail = (r.head + r.count) % pipeBufSize

/-- The ring is in order, and what was delivered followed by what is buffered is
what was appended. -/
structure Fifo (s : PipeState) : Prop where
  ring : RingOk s.ring
  history : s.delivered ++ buffered s.ring = s.appended

lemma RingOk.congr {r' : PipeRing} (h : RingOk r) (hd : SameData r r') : RingOk r' :=
  ⟨hd.head ▸ h.head_lt, hd.count ▸ h.count_le, by rw [hd.tail, hd.head, hd.count, h.tail_eq]⟩

lemma SameData.buffered_eq {r' : PipeRing} (h : SameData r r') : buffered r' = buffered r := by
  rw [buffered, buffered, h.buf, h.head, h.count]

lemma copyOut_ringOk (h : RingOk r) (count : ℕ) : RingOk (copyOut r count).2 := by
  have hcount := h.count_le
  refine ⟨Nat.mod_lt _ (by decide), ?_, ?_⟩
  · change r.count - min count r.count ≤ pipeBufSize
    omega
  · change r.tail = ((r.head + min count r.count) % pipeBufSize + (r.count - min count r.count))
      % pipeBufSize
    have hsum : r.head + r.count = r.head + min count r.count + (r.count - min count r.count) := by
      omega
    rw [h.tail_eq, Nat.mod_add_mod, hsum]

/-- `pipe_read` delivers the front of the view and leaves the rest. -/
lemma copyOut_buffered (h : RingOk r) (count : ℕ) :
    (copyOut r count).1 ++ buffered (copyOut r count).2 = buffered r := by
  have hcount := h.count_le
  have hdelivered : (copyOut r count).1 = window pipeBufSize r.buf r.head (min count r.count) :=
    slice_append_slice r.buf h.head_lt (by omega) rfl
  have hrest : buffered (copyOut r count).2 = window pipeBufSize r.buf
      ((r.head + min count r.count) % pipeBufSize) (r.count - min count r.count) := rfl
  rw [hdelivered, hrest, ← window_add, Nat.add_sub_cancel' (Nat.min_le_right _ _)]
  rfl

lemma copyIn_ringOk (h : RingOk r) (rest : List UInt8) : RingOk (copyIn r rest).2 := by
  have hcount := h.count_le
  refine ⟨h.head_lt, ?_, ?_⟩
  · change r.count + min rest.length (pipeBufSize - r.count) ≤ pipeBufSize
    omega
  · change (r.tail + min rest.length (pipeBufSize - r.count)) % pipeBufSize
      = (r.head + (r.count + min rest.length (pipeBufSize - r.count))) % pipeBufSize
    rw [h.tail_eq, Nat.mod_add_mod, Nat.add_assoc]

/-- `pipe_write` appends what it takes to the view. -/
lemma copyIn_buffered (h : RingOk r) (rest : List UInt8) :
    buffered (copyIn r rest).2 = buffered r ++ rest.take (copyIn r rest).1 := by
  have hcount := h.count_le
  have hlen : (rest.take (min rest.length (pipeBufSize - r.count))).length
      = min rest.length (pipeBufSize - r.count) := by
    rw [List.length_take]; omega
  have hroom : r.count + (rest.take (min rest.length (pipeBufSize - r.count))).length
      ≤ pipeBufSize := by rw [hlen]; omega
  have key := window_blit_blit r.buf h.head_lt hroom h.tail_eq rfl
  rw [hlen] at key
  exact key

lemma Fifo.of_ringEffect (h : Fifo s) (he : RingEffect s s') : Fifo s' := by
  cases he with
  | same ring delivered appended =>
    exact ⟨h.ring.congr ring, by rw [delivered, appended, ring.buffered_eq, h.history]⟩
  | read count ring delivered appended =>
    refine ⟨(copyOut_ringOk h.ring count).congr ring, ?_⟩
    rw [delivered, appended, ring.buffered_eq, List.append_assoc, copyOut_buffered h.ring,
      h.history]
  | write rest ring delivered appended =>
    refine ⟨(copyIn_ringOk h.ring rest).congr ring, ?_⟩
    rw [delivered, appended, ring.buffered_eq, copyIn_buffered h.ring, ← List.append_assoc,
      h.history]

lemma fifo_pipeInit : Fifo pipeInit := ⟨⟨by decide, by decide, by decide⟩, rfl⟩

/-- **A pipe is a FIFO.** After every schedule of any number of calls, the
counters are in range and consistent, and the bytes handed to readers followed by
the buffered bytes are the bytes appended by writers, in the order of the critical
sections. -/
theorem pipe_fifo (es : List Event) :
    (run step pipeInit es).ring.count ≤ pipeBufSize ∧
    (run step pipeInit es).ring.tail
      = ((run step pipeInit es).ring.head + (run step pipeInit es).ring.count) % pipeBufSize ∧
    (run step pipeInit es).delivered ++ buffered (run step pipeInit es).ring
      = (run step pipeInit es).appended := by
  have h : Fifo (run step pipeInit es) :=
    run_invariant (fun _ _ _ hs hstep => hs.of_ringEffect (step_ringEffect hstep))
      fifo_pipeInit es
  exact ⟨h.ring.count_le, h.ring.tail_eq, h.history⟩

/-- Three bytes are written and two of them read. -/
theorem pipe_fifo_threeBytes :
    let s := run step pipeInit
      [.startWrite 0 [1, 2, 3] true, .run 0, .run 0, .startRead 1 2 true, .run 1]
    s.call 0 = some ⟨0, .write [1, 2, 3] 3, .returned 3⟩ ∧ s.delivered = [1, 2] ∧
      s.delivered ++ buffered s.ring = s.appended ∧ s.appended = [1, 2, 3] :=
  ⟨rfl, rfl, (pipe_fifo _).2.2, rfl⟩

end Aurora.Pipe
