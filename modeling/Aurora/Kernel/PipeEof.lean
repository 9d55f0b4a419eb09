import Aurora.Kernel.PipeBlocked
import Aurora.Kernel.PipeFifo

/-!
# The end of a pipe

Once the write end is closed, a reader has to get what is still in the ring and then 0. The
section under the lock does so, but `pipe_read` looks at `ring->closed` before it, and
`pipe_close` of either end sets that flag: only the calls that had passed the test before the
close are served, and every later one fails with `EPIPE`, whatever is left in the ring.

## Main definitions

* `Drains s e`: the event serves the readers of a pipe without a writer.
* `InTime s e`: no reader comes after the writer has gone.
* `drains_iff`: along a tame schedule the two are the same.
-/

namespace Aurora.Pipe

open Lib Function List Option

/-- A call of `pipe_read` that has the lock returns the next `count` bytes, or all that are left. -/
def Served (s : PipeState) (c : CallId) (t : Tid) (count : ℕ) : Prop :=
  ∃ s', step s (.run c) = some s' ∧
    s'.call c = some ⟨t, .read count, .returned (min count (buffered s.ring).length : ℕ)⟩ ∧
    s'.delivered = s.delivered ++ (buffered s.ring).take count

/-- With the write end closed, a call of `pipe_read` is not turned away, and it is served. -/
structure Drains (s : PipeState) (e : Event) : Prop where
  accepted : ∀ t count s', e = .startRead t count true → s.ring.readOpen = true →
    s.ring.writeOpen = false → step s e = some s' →
    s'.call s.ncalls = some ⟨t, .read count, .lockTop⟩
  served : ∀ c t count, e = .run c → s.ring.readOpen = true → s.ring.writeOpen = false →
    s.call c = some ⟨t, .read count, .lockTop⟩ → Served s c t count

/-- No task calls `pipe_read` once the write end is closed. -/
def InTime (s : PipeState) : Event → Prop
  | .startRead t _ true => s.ring.readOpen = true → s.ring.writeOpen = true ∨ s.busy t = true
  | _ => True

variable {c : CallId} {s s' : PipeState} {e : Event}

/-! ## The flags of the two ends -/

/-- The flags say which ends are open. -/
structure EndsOk (s : PipeState) : Prop where
  closed : s.ring.closed = !(s.ring.readOpen && s.ring.writeOpen)
  freed : s.freed = !(s.ring.readOpen || s.ring.writeOpen)

lemma EndsOk.congr (h : EndsOk s) (heq : ends s' = ends s) : EndsOk s' := by
  simp only [ends, Prod.mk.injEq] at heq
  obtain ⟨hread, hwrite, hclosed, hfreed⟩ := heq
  exact ⟨by rw [hclosed, hread, hwrite, h.closed], by rw [hfreed, hread, hwrite, h.freed]⟩

/-- Only `pipe_close` changes the flags, and it sets `closed` with either end. -/
lemma step_endsOk (h : EndsOk s) (hstep : step s e = some s') : EndsOk s' := by
  cases e with
  | startRead t _ rangeOk => exact h.congr (startCall_effect hstep).2
  | startWrite t _ rangeOk => exact h.congr (startCall_effect hstep).2
  | run c =>
    obtain ⟨_, -, hstep⟩ := bind_eq_some_iff.1 hstep
    exact h.congr (runCall_effect hstep).2
  | close readEnd =>
    simp only [step, pipeClose] at hstep
    split at hstep
    · cases hstep
      exact h
    · obtain ⟨_, -, hstep⟩ := bind_eq_some_iff.1 hstep
      obtain ⟨_, -, rfl⟩ := map_eq_some_iff.1 hstep
      constructor <;> cases readEnd <;> simp
  | kill t _ => cases hstep; exact ⟨h.closed, h.freed⟩
  | takeSignals t => cases hstep; exact ⟨h.closed, h.freed⟩

/-! ## What a reader gets -/

/-- The bytes that one read copies out. -/
lemma copyOut_eq {r : PipeRing} (h : RingOk r) (count : ℕ) :
    (copyOut r count).1 = (buffered r).take count ∧
      (copyOut r count).1.length = min count (buffered r).length := by
  have hlen : (copyOut r count).1.length = min count (buffered r).length := by
    simp only [copyOut, buffered, length_append, length_slice, length_window]
    omega
  have hsplit := congrArg (take (copyOut r count).1.length) (copyOut_buffered h count)
  rw [take_left', hlen, ← take_take, take_length] at hsplit
  · exact ⟨hsplit, hlen⟩
  · rfl

lemma served_of_inv (h : Inv s) (hfifo : Fifo s) (hends : EndsOk s) {t : Tid} {count : ℕ}
    (hread : s.ring.readOpen = true) (hwrite : s.ring.writeOpen = false)
    (hcall : s.call c = some ⟨t, .read count, .lockTop⟩) : Served s c t count := by
  have hfreed : s.freed = false := by rw [hends.freed, hread]; rfl
  have hrun : step s (.run c) = pipeReadLocked s c ⟨t, .read count, .lockTop⟩ count := by
    simp [step, hcall, runCall, hfreed, lockTopSection]
  rw [Served, hrun, pipeReadLocked]
  by_cases hsome : 0 < s.ring.count
  · obtain ⟨hbytes, hlen⟩ := copyOut_eq hfifo.ring count
    obtain ⟨state, hwake⟩ := isSome_iff_exists.1 ((h.listOk false).2 s.state)
    simp only [PipeState.headOf, Bool.false_eq_true, if_false] at hwake
    rw [if_pos hsome, hwake, ← hlen, ← hbytes]
    exact ⟨_, rfl, update_self .., rfl⟩
  · have hnil : buffered s.ring = [] := by
      rw [buffered, Nat.eq_zero_of_not_pos hsome, window_zero]
    rw [if_neg hsome, hwrite, hnil]
    refine ⟨_, rfl, ?_, by simp [PipeState.finish, PipeState.goto]⟩
    simp [PipeState.finish, PipeState.goto]

/-- A call that comes after the close fails. -/
lemma step_startRead_of_closed (hends : EndsOk s) {t : Tid} (count : ℕ)
    (hread : s.ring.readOpen = true) (hwrite : s.ring.writeOpen = false)
    (hidle : s.busy t = false) :
    ∃ s', step s (.startRead t count true) = some s' ∧
      s'.call s.ncalls = some ⟨t, .read count, .returned (-1)⟩ := by
  have hfreed : s.freed = false := by rw [hends.freed, hread]; rfl
  have hclosed : s.ring.closed = true := by rw [hends.closed, hwrite, Bool.and_false]; rfl
  refine ⟨_, by simp [step, startCall, hidle, hfreed, hclosed]; rfl, update_self ..⟩

lemma drains_iff_inTime (h : Inv s) (hfifo : Fifo s) (hends : EndsOk s) :
    Drains s e ↔ InTime s e := by
  constructor
  · intro hd
    cases e with
    | startRead t count rangeOk =>
      cases rangeOk with
      | false => trivial
      | true =>
        intro hread
        by_contra hlate
        rw [not_or, Bool.not_eq_true, Bool.not_eq_true] at hlate
        obtain ⟨s', hstep, hcall⟩ := step_startRead_of_closed hends count hread hlate.1
          hlate.2
        simp [hd.accepted t count s' rfl hread hlate.1 hstep] at hcall
    | startWrite | run | close | kill | takeSignals => trivial
  · intro hin
    constructor
    · rintro t count s' rfl hread hwrite hstep
      obtain hopen | hbusy := hin hread
      · simp [hwrite] at hopen
      · simp [step, startCall, hbusy] at hstep
    · rintro c t count rfl hread hwrite hcall
      exact served_of_inv h hfifo hends hread hwrite hcall

/-- Three readers that wait for the lock when the writer closes, with two bytes in the ring. -/
def waitingReaders : List Event :=
  [.startRead 0 1 true, .startRead 1 4 true, .startRead 2 1 true, .startWrite 3 [7, 8] true,
    .run 3, .run 3, .close false, .run 0, .run 1, .run 2]

/-- A writer that puts one byte into the pipe and closes it before the reader calls. -/
def lateReader : List Event :=
  [.startWrite 0 [7] true, .run 0, .run 0, .close false, .startRead 1 1 true]

end Aurora.Pipe
