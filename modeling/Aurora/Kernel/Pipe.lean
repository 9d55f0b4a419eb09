import Aurora.Kernel.Task
import Aurora.Lib.Ring
import Aurora.Lib.Run

/-!
# Anonymous pipes

The model of `pipe.c`: one pipe, any number of tasks, and every call of
`pipe_read` and `pipe_write` as a thread that runs from one section under
`ring->lock` to the next. A schedule is a list of events; an event runs one such
section of one call, starts a call, closes an end, or delivers a signal. The
sections are atomic because they are what the lock protects.

The lists of blocked tasks are kept at the level of pointers. A node lives on the
stack of the call that links it, so it is named by that call. A list walk that
does not come to an end keeps the lock for ever; the section is then not enabled.

Two ghost fields record the history: the bytes copied to readers and the bytes
copied from writers, each in the order of the critical sections.

## Main definitions

* `PipeRing`: `struct pipe_ring`.
* `copyOut`, `copyIn`: the copies of `pipe_read` and `pipe_write`.
* `PipeState`, `step`: the pipe, its calls, and one event.
* `pipeInit`: the pipe that `sys_pipe` builds.
-/

namespace Aurora.Pipe

open Lib Function

/-- `PIPE_BUF_SIZE`. -/
def pipeBufSize : ℕ := 4096

/-- A task. -/
abbrev Tid := ℕ

/-- A call of `pipe_read` or `pipe_write`, and the node on its stack. -/
abbrev CallId := ℕ

/-- `struct pipe_blocked_node`. -/
structure PipeBlockedNode where
  task : Tid
  next : Option CallId

/-- `struct pipe_ring`, less its lock and the back pointers to the two inodes. -/
structure PipeRing where
  buf : ℕ → UInt8
  /-- Read position. -/
  head : ℕ
  /-- Write position. -/
  tail : ℕ
  /-- Bytes in the buffer. -/
  count : ℕ
  readOpen : Bool
  writeOpen : Bool
  closed : Bool
  blockedReaders : Option CallId
  blockedWriters : Option CallId

/-- Which function a call runs, with its arguments and what it has done so far. -/
inductive CallOp
  /-- `pipe_read` of `count` bytes. -/
  | read (count : ℕ)
  /-- `pipe_write` of `src`, of which `total` bytes are in the ring. -/
  | write (src : List UInt8) (total : ℕ)
  deriving DecidableEq

/-- Where a call stands. -/
inductive Phase
  /-- `pipe_write` before it looks at `read_open` for the first time. -/
  | checkOpen
  /-- At the top of the blocking loop, before the lock is taken. -/
  | lockTop
  /-- Linked and unlocked, before it looks at its pending signals. -/
  | linked
  /-- A signal is pending; before it takes the lock to unlink its node. -/
  | unlinking
  /-- In `schedule()`. -/
  | waiting
  /-- Returned. -/
  | returned (ret : ℤ)
  deriving DecidableEq

/-- A call in progress. -/
structure Call where
  task : Tid
  op : CallOp
  phase : Phase
  deriving DecidableEq

/-- The pipe, its calls and the tasks that make them. -/
structure PipeState where
  ring : PipeRing
  /-- The ring has been handed to `kfree`. -/
  freed : Bool
  node : CallId → PipeBlockedNode
  call : CallId → Option Call
  /-- Calls made so far; the next call gets this name. -/
  ncalls : ℕ
  /-- The task is inside a call. -/
  busy : Tid → Bool
  state : Tid → TaskState
  /-- `current->sig && current->sig->pending`. -/
  pending : Tid → Bool
  tErrno : Tid → Option Errno
  /-- Ghost: all bytes copied to readers. -/
  delivered : List UInt8
  /-- Ghost: all bytes copied from writers. -/
  appended : List UInt8

/-- What may happen next. -/
inductive Event
  /-- Task `t` calls `pipe_read`; `rangeOk` is the answer of `user_addr_range_ok`. -/
  | startRead (t : Tid) (count : ℕ) (rangeOk : Bool)
  /-- Task `t` calls `pipe_write`. -/
  | startWrite (t : Tid) (src : List UInt8) (rangeOk : Bool)
  /-- Call `c` runs to its next unlock, or to its next look at the task state. -/
  | run (c : CallId)
  /-- `pipe_close` of the read end or of the write end. -/
  | close (readEnd : Bool)
  /-- `do_sys_kill`; `wakes` says that the signal is neither masked nor ignored. -/
  | kill (t : Tid) (wakes : Bool)
  /-- `check_signals` takes the pending signals of a task. -/
  | takeSignals (t : Tid)

/-! ## The pieces of the critical sections -/

/-- The copy of `pipe_read` under the lock: the bytes for the caller and the ring
behind them. -/
def copyOut (r : PipeRing) (count : ℕ) : List UInt8 × PipeRing :=
  let toread := min count r.count
  let firstChunk := min toread (pipeBufSize - r.head)
  (slice r.buf r.head firstChunk ++ slice r.buf 0 (toread - firstChunk),
    { r with head := (r.head + toread) % pipeBufSize, count := r.count - toread })

/-- The copy of `pipe_write` under the lock: how much of `rest` fits, and the ring
with it. -/
def copyIn (r : PipeRing) (rest : List UInt8) : ℕ × PipeRing :=
  let towrite := min rest.length (pipeBufSize - r.count)
  let firstChunk := min towrite (pipeBufSize - r.tail)
  let chunk := rest.take towrite
  (towrite,
    { r with
      buf := blit (blit r.buf r.tail (chunk.take firstChunk)) 0 (chunk.drop firstChunk)
      tail := (r.tail + towrite) % pipeBufSize
      count := r.count + towrite })

/-- The loops that wake all tasks of a list. `none`: the list has no end. -/
def wakeAll (node : CallId → PipeBlockedNode) :
    ℕ → Option CallId → (Tid → TaskState) → Option (Tid → TaskState)
  | _, none, state => some state
  | 0, some _, _ => none
  | fuel + 1, some c, state => wakeAll node fuel (node c).next (wakeTask state (node c).task)

/-- The rest of the unlinking loop, with `prev` at the `next` field of `p`. -/
def unlinkAfter (c : CallId) : ℕ → CallId → (CallId → PipeBlockedNode) →
    Option (CallId → PipeBlockedNode)
  | 0, _, _ => none
  | fuel + 1, p, node =>
    match (node p).next with
    | none => some node
    | some q =>
      if q = c then some (update node p { node p with next := (node c).next })
      else unlinkAfter c fuel q node

/-- The loop that a call with a pending signal runs to take its node out of the
list with head `head`: the new head and nodes. `none`: the loop has no end. -/
def unlink (fuel : ℕ) (c : CallId) (head : Option CallId) (node : CallId → PipeBlockedNode) :
    Option (Option CallId × (CallId → PipeBlockedNode)) :=
  match head with
  | none => some (none, node)
  | some p =>
    if p = c then some ((node c).next, node)
    else (unlinkAfter c fuel p node).map fun node' => (some p, node')

/-- `c` goes on at phase `ph`. -/
def PipeState.goto (s : PipeState) (c : CallId) (call : Call) (ph : Phase) : PipeState :=
  { s with call := update s.call c (some { call with phase := ph }) }

/-- `c` returns `ret`. -/
def PipeState.finish (s : PipeState) (c : CallId) (call : Call) (ret : ℤ) : PipeState :=
  { s.goto c call (.returned ret) with busy := update s.busy call.task false }

/-- `c` returns `-1` with an error number. -/
def PipeState.fail (s : PipeState) (c : CallId) (call : Call) (e : Errno) : PipeState :=
  { s.finish c call (-1) with tErrno := update s.tErrno call.task (some e) }

/-- Register a new call. -/
def PipeState.newCall (s : PipeState) (call : Call) : PipeState :=
  { s with
    call := update s.call s.ncalls (some call)
    node := update s.node s.ncalls ⟨call.task, none⟩
    ncalls := s.ncalls + 1
    busy := update s.busy call.task true }

/-! ## `pipe_read` and `pipe_write` -/

/-- The common head of `pipe_read` and `pipe_write`, up to the node on the stack. -/
def startCall (s : PipeState) (call : Call) (rangeOk : Bool) : Option PipeState :=
  let s' := s.newCall call
  if s.busy call.task then none
  else if s.freed then some (s'.finish s.ncalls call (-1))
  else if s.ring.closed then some (s'.fail s.ncalls call .EPIPE)
  else if rangeOk then some s'
  else some (s'.fail s.ncalls call .EFAULT)

/-- Set the caller's state to `TASK_BLOCKED` and link its node at `head`. -/
def PipeState.block (s : PipeState) (c : CallId) (call : Call) (head : Option CallId)
    (ring : PipeRing) : PipeState :=
  { s.goto c call .linked with
    state := update s.state call.task .blocked
    node := update s.node c { s.node c with next := head }
    ring := ring }

/-- The section of `pipe_read` that starts at the top of its loop. -/
def pipeReadLocked (s : PipeState) (c : CallId) (call : Call) (count : ℕ) : Option PipeState :=
  if 0 < s.ring.count then
    let (bytes, ring) := copyOut s.ring count
    (wakeAll s.node (s.ncalls + 1) s.ring.blockedWriters s.state).map fun state =>
      { s.finish c call bytes.length with
        ring := { ring with blockedWriters := none }
        state := state
        delivered := s.delivered ++ bytes }
  else if !s.ring.writeOpen then some (s.finish c call 0)
  else some (s.block c call s.ring.blockedReaders { s.ring with blockedReaders := some c })

/-- The section of `pipe_write` that starts at the top of its inner loop. -/
def pipeWriteLocked (s : PipeState) (c : CallId) (call : Call) (src : List UInt8) (total : ℕ) :
    Option PipeState :=
  if s.ring.count < pipeBufSize then
    let (towrite, ring) := copyIn s.ring (src.drop total)
    (wakeAll s.node (s.ncalls + 1) s.ring.blockedReaders s.state).map fun state =>
      let s' := { s with
        ring := { ring with blockedReaders := none }
        state := state
        appended := s.appended ++ (src.drop total).take towrite }
      let call' := { call with op := .write src (total + towrite) }
      if total + towrite < src.length then s'.goto c call' .lockTop
      else s'.finish c call' (total + towrite)
  else if !s.ring.readOpen then some (s.fail c call .EPIPE)
  else some (s.block c call s.ring.blockedWriters { s.ring with blockedWriters := some c })

/-- The section that unlinks the node of a call with a pending signal. -/
def unlinkLocked (s : PipeState) (c : CallId) (call : Call) : Option PipeState :=
  let interrupted (s' : PipeState) : PipeState :=
    { s'.fail c call .EINTR with state := update s'.state call.task .ready }
  match call.op with
  | .read _ =>
    (unlink (s.ncalls + 1) c s.ring.blockedReaders s.node).map fun (head, node) =>
      interrupted { s with ring := { s.ring with blockedReaders := head }, node := node }
  | .write _ _ =>
    (unlink (s.ncalls + 1) c s.ring.blockedWriters s.node).map fun (head, node) =>
      interrupted { s with ring := { s.ring with blockedWriters := head }, node := node }

/-- The section at the top of the blocking loop of a call. -/
def lockTopSection (s : PipeState) (c : CallId) (call : Call) : Option PipeState :=
  match call.op with
  | .read count => pipeReadLocked s c call count
  | .write src total => pipeWriteLocked s c call src total

/-- The first section of `pipe_write`, with the test of its loop behind it. -/
def checkOpenSection (s : PipeState) (c : CallId) (call : Call) : Option PipeState :=
  match call.op with
  | .read _ => none
  | .write src _ =>
    if !s.ring.readOpen then some (s.finish c call (-1))
    else if src.length = 0 then some (s.finish c call 0)
    else some (s.goto c call .lockTop)

/-- A call runs to its next unlock. The sections that touch the ring are not
enabled once it is freed: the code has no defined behaviour there. -/
def runCall (s : PipeState) (c : CallId) (call : Call) : Option PipeState :=
  match call.phase with
  | .checkOpen => if s.freed then none else checkOpenSection s c call
  | .lockTop => if s.freed then none else lockTopSection s c call
  | .linked => some (s.goto c call (if s.pending call.task then .unlinking else .waiting))
  | .unlinking => if s.freed then none else unlinkLocked s c call
  | .waiting =>
    if s.state call.task = .blocked then none
    else some { s.goto c call .lockTop with
      state := update s.state call.task .running }
  | .returned _ => none

/-! ## `pipe_close` and signals -/

/-- `pipe_close` of one end. -/
def pipeClose (s : PipeState) (readEnd : Bool) : Option PipeState :=
  if s.freed then some s
  else
    let readOpen := s.ring.readOpen && !readEnd
    let writeOpen := s.ring.writeOpen && readEnd
    (wakeAll s.node (s.ncalls + 1) s.ring.blockedReaders s.state).bind fun state =>
      (wakeAll s.node (s.ncalls + 1) s.ring.blockedWriters state).map fun state =>
        { s with
          ring := { s.ring with
            readOpen := readOpen, writeOpen := writeOpen, closed := true
            blockedReaders := none, blockedWriters := none }
          state := state
          freed := !readOpen && !writeOpen }

/-- One event. -/
def step (s : PipeState) : Event → Option PipeState
  | .startRead t count rangeOk => startCall s ⟨t, .read count, .lockTop⟩ rangeOk
  | .startWrite t src rangeOk => startCall s ⟨t, .write src 0, .checkOpen⟩ rangeOk
  | .run c => (s.call c).bind (runCall s c)
  | .close readEnd => pipeClose s readEnd
  | .kill t wakes =>
    some { s with
      pending := update s.pending t true
      state := if wakes then wakeTask s.state t else s.state }
  | .takeSignals t => some { s with pending := update s.pending t false }

/-- The pipe that `sys_pipe` builds, before any call. -/
def pipeInit : PipeState where
  ring := ⟨fun _ => 0, 0, 0, 0, true, true, false, none, none⟩
  freed := false
  node := fun _ => ⟨0, none⟩
  call := fun _ => none
  ncalls := 0
  busy := fun _ => false
  state := fun _ => .running
  pending := fun _ => false
  tErrno := fun _ => none
  delivered := []
  appended := []

end Aurora.Pipe
