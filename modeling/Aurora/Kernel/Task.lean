import Mathlib.Data.Int.Notation
import Mathlib.Logic.Function.Basic

/-!
# Tasks

What several subsystems of the kernel share about tasks: the states of the task
state machine (`task_state_t` of `sched.h`) and the error numbers that they leave
in a task's `t_errno`.
-/

namespace Aurora

/-- The states of the task state machine, `task_state_t`. -/
inductive TaskState
  /-- Currently executing. -/
  | running
  /-- Runnable. -/
  | ready
  /-- Waiting for an event. -/
  | blocked
  /-- Exited, awaiting the parent's `waitpid`. -/
  | zombie
  /-- Fully cleaned up. -/
  | dead
  deriving DecidableEq, Repr, Inhabited

/-- The error numbers of `errno.h` that the modelled functions report. -/
inductive Errno
  | ENOENT
  | EINTR
  | EIO
  | ECHILD
  | EAGAIN
  | ENOMEM
  | EACCES
  | EFAULT
  | EEXIST
  | EINVAL
  | ENOSPC
  | EPIPE
  deriving DecidableEq, Repr

/-- The value of an error number. -/
def Errno.code : Errno → ℤ
  | .ENOENT => 2
  | .EINTR => 4
  | Errno.EIO => 5
  | .ECHILD => 10
  | .EAGAIN => 11
  | .ENOMEM => 12
  | .EACCES => 13
  | .EFAULT => 14
  | .EEXIST => 17
  | .EINVAL => 22
  | .ENOSPC => 28
  | .EPIPE => 32

/-- The wake-up that the subsystems share: `if (t->state == TASK_BLOCKED)
t->state = TASK_READY`. -/
def wakeTask {T : Type*} [DecidableEq T] (state : T → TaskState) (t : T) : T → TaskState :=
  if state t = .blocked then Function.update state t .ready else state

end Aurora
