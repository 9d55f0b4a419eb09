import Aurora.Kernel.Seccomp
import Aurora.Lib.Run

/-!
# Filters and the process tree

What `sys_fork`, `sys_execve` and further calls of `seccomp_set_filter` do to the
filters of a task and of the processes forked from it. `create_task` clears the whole
task structure and nothing copies the `seccomp` field afterwards, so a forked process
starts without a filter. A filter that refuses something confines the task and its
offspring exactly as long as no fork succeeds.

## Main definitions

* `World`: the tasks with their filters, the process identifiers in use, and the
  offspring of one task.
* `allocPid`, `createTask`, `sysFork`: as in `sched.c` and `syscall.c`.
* `Confined`: the offspring is refused everything that the filter refuses.
* `confined_iff`: when a run keeps the offspring confined.
-/

namespace Aurora.Seccomp

open Lib Function

/-- A process identifier. -/
abbrev Pid := ℕ

/-- `MAX_PID`. -/
def maxPid : ℕ := 8192

/-- The tasks, as far as filters and forks are concerned. -/
structure World where
  /-- The `seccomp` field of the task in `pid_table`; `none` where there is no task. -/
  seccomp : Pid → Option (Option SeccompFilter)
  /-- The bitmap of identifiers in use. -/
  pidUsed : Pid → Bool
  nextPid : Pid
  /-- Ghost: the observed task and the processes forked from it since. -/
  kin : List Pid

/-- The scan of `alloc_pid`, with the attempts that are left. -/
def allocPidLoop : ℕ → (Pid → Bool) → Pid → Option Pid × (Pid → Bool) × Pid
  | 0, used, next => (none, used, next)
  | attempts + 1, used, pid =>
    let next := if pid + 1 ≥ maxPid then 2 else pid + 1
    if used pid then allocPidLoop attempts used next
    else (some pid, Function.update used pid true, next)

/-- `alloc_pid`; `none` when the identifiers are exhausted. -/
def allocPid (w : World) : Option Pid × World :=
  let reserved := Function.update (Function.update w.pidUsed 0 true) 1 true
  let (pid, used, next) := allocPidLoop maxPid reserved w.nextPid
  (pid, { w with pidUsed := used, nextPid := next })

/-- What the allocations of a fork answer. -/
structure ForkEnv where
  /-- The `CLONE_VFORK` flag. -/
  vfork : Bool
  /-- `clone_current_pml4` finds the pages it needs. -/
  cloneOk : Bool
  /-- `kmalloc` of the task structure succeeds. -/
  kmallocOk : Bool
  /-- `alloc_page` of the kernel stack succeeds. -/
  stackOk : Bool
  deriving DecidableEq

/-- `create_task`: the new task has the fields that `memset` left zero, its filter
among them. -/
def createTask (w : World) (env : ForkEnv) : Option Pid × World :=
  if !env.kmallocOk then (none, w)
  else if !env.stackOk then (none, w)
  else
    match allocPid w with
    | (none, w') => (none, w')
    | (some pid, w') =>
      (some pid, { w' with seccomp := Function.update w'.seccomp pid (some none) })

/-- `sys_fork` by task `p`: the value it returns and the tasks afterwards. -/
def sysFork (w : World) (p : Pid) (env : ForkEnv) : ℤ × World :=
  if !env.vfork && !env.cloneOk then (-1, w)
  else
    match createTask w env with
    | (none, w') => (-1, w')
    | (some child, w') =>
      (child, { w' with kin := if p ∈ w.kin then child :: w'.kin else w'.kin })

/-- What the task and its offspring may do. -/
inductive Op
  /-- `seccomp_set_filter` by task `p` for itself. -/
  | setFilter (p : Pid) (filter : Option SeccompFilter) (kmallocOk : Bool)
  /-- `sys_fork`. -/
  | fork (p : Pid) (env : ForkEnv)
  /-- `sys_execve`, which keeps the task structure. -/
  | execve (p : Pid)

/-- One operation of the task or of a process forked from it. -/
def step (w : World) : Op → Option World
  | .setFilter p filter kmallocOk =>
    if p ∈ w.kin then
      let field := (seccompSetFilter (w.seccomp p) filter kmallocOk).2
      some { w with seccomp := Function.update w.seccomp p field }
    else none
  | .fork p env => if p ∈ w.kin then some (sysFork w p env).2 else none
  | .execve p => if p ∈ w.kin then some w else none

/-- The call is refused by a task with this `seccomp` field. -/
def Denied (seccomp : Option (Option SeccompFilter)) (nr : Int32)
    (args : Option (Fin 6 → UInt64)) (beyond : ℕ → UInt8) : Prop :=
  ∃ fuel, seccompCheck fuel seccomp nr args beyond = some (-1)

/-- Whatever `f` refuses is refused to the task and to its offspring. -/
def Confined (f : SeccompFilter) (w : World) : Prop :=
  ∀ p ∈ w.kin, ∀ nr args beyond, Denied (some (some f)) nr args beyond →
    Denied (w.seccomp p) nr args beyond

/-- The operation is a fork of the offspring that creates a process. -/
def ForkSucceeds (w : World) (op : Op) : Prop :=
  ∃ p env, op = .fork p env ∧ p ∈ w.kin ∧ (env.vfork ∨ env.cloneOk) ∧ env.kmallocOk ∧
    env.stackOk ∧ (allocPid w).1 ≠ none

/-- The tasks after `seccomp_set_filter(t, f)`, with the offspring of `t` still to come. -/
def afterInstall (w : World) (t : Pid) (f : SeccompFilter) (kmallocOk : Bool) : World :=
  { w with
    seccomp := Function.update w.seccomp t (seccompSetFilter (w.seccomp t) (some f) kmallocOk).2
    kin := [t] }

/-! ## One operation -/

variable {w w' : World} {t : Pid} {f : SeccompFilter}

lemma allocPid_seccomp (w : World) : (allocPid w).2.seccomp = w.seccomp := rfl

lemma allocPid_kin (w : World) : (allocPid w).2.kin = w.kin := rfl

lemma createTask_none {env : ForkEnv} (h : (createTask w env).1 = none) :
    (createTask w env).2.seccomp = w.seccomp ∧ (createTask w env).2.kin = w.kin := by
  unfold createTask at h ⊢
  split
  · exact ⟨rfl, rfl⟩
  split
  · exact ⟨rfl, rfl⟩
  next hk hs =>
  cases hpid : (allocPid w).1 with
  | none =>
    have he : allocPid w = (none, (allocPid w).2) := by rw [← hpid]
    rw [he]
    exact ⟨allocPid_seccomp w, allocPid_kin w⟩
  | some pid =>
    have he : allocPid w = (some pid, (allocPid w).2) := by rw [← hpid]
    rw [if_neg hk, if_neg hs, he] at h
    cases h

/-- A forked process starts without a filter. -/
lemma createTask_some {env : ForkEnv} {pid : Pid} (h : (createTask w env).1 = some pid) :
    (createTask w env).2.seccomp pid = some none ∧ env.kmallocOk ∧ env.stackOk ∧
      (allocPid w).1 ≠ none := by
  unfold createTask at h ⊢
  split at h
  · cases h
  split at h
  · cases h
  next hk hs =>
  rw [if_neg hk, if_neg hs]
  cases hpid : (allocPid w).1 with
  | none =>
    have he : allocPid w = (none, (allocPid w).2) := by rw [← hpid]
    rw [he] at h
    cases h
  | some pid' =>
    have he : allocPid w = (some pid', (allocPid w).2) := by rw [← hpid]
    rw [he] at h ⊢
    cases h
    exact ⟨update_self _ _ _, by simpa using hk, by simpa using hs, by simp⟩

/-- A fork that does not succeed creates no process and keeps all filters. -/
lemma sysFork_fails {p : Pid} {env : ForkEnv} (hp : p ∈ w.kin)
    (h : ¬ ForkSucceeds w (.fork p env)) :
    (sysFork w p env).2.seccomp = w.seccomp ∧ (sysFork w p env).2.kin = w.kin := by
  unfold sysFork
  split
  · exact ⟨rfl, rfl⟩
  next hclone =>
  cases hpid : (createTask w env).1 with
  | none =>
    have he : createTask w env = (none, (createTask w env).2) := by rw [← hpid]
    rw [he]
    exact createTask_none hpid
  | some _ =>
    obtain ⟨-, hk, hs, ha⟩ := createTask_some hpid
    refine absurd ⟨p, env, rfl, hp, ?_, hk, hs, ha⟩ h
    cases hv : env.vfork <;> cases hc : env.cloneOk <;> simp_all

/-- A fork that succeeds adds a process without a filter to the offspring. -/
lemma sysFork_succeeds {p : Pid} {env : ForkEnv} (h : ForkSucceeds w (.fork p env)) :
    ∃ child ∈ (sysFork w p env).2.kin, (sysFork w p env).2.seccomp child = some none := by
  obtain ⟨_, _, heq, hp, hclone, hk, hs, ha⟩ := h
  cases heq
  have hcreate : ∃ child, (createTask w env).1 = some child := by
    obtain ⟨child, hchild⟩ := Option.ne_none_iff_exists'.1 ha
    have he : allocPid w = (some child, (allocPid w).2) := by rw [← hchild]
    refine ⟨child, ?_⟩
    unfold createTask
    rw [if_neg (by simp [hk]), if_neg (by simp [hs]), he]
  obtain ⟨child, hchild⟩ := hcreate
  have he : createTask w env = (some child, (createTask w env).2) := by rw [← hchild]
  have hne : ¬ ((!env.vfork && !env.cloneOk) = true) := by
    rcases hclone with h | h <;> simp [h]
  refine ⟨child, ?_, ?_⟩
  · rw [sysFork, if_neg hne, he]
    simp [hp]
  · rw [sysFork, if_neg hne, he]
    exact (createTask_some hchild).1

/-- Once a filter is installed, `seccomp_set_filter` refuses to change it. -/
lemma seccompSetFilter_installed (filter : Option SeccompFilter) (kmallocOk : Bool) :
    (seccompSetFilter (some (some f)) filter kmallocOk).2 = some (some f) := by
  unfold seccompSetFilter
  cases filter <;> simp

lemma afterInstall_seccomp {kmallocOk : Bool}
    (h : (seccompSetFilter (w.seccomp t) (some f) kmallocOk).1 = 0) :
    (afterInstall w t f kmallocOk).seccomp t = some (some f) := by
  simp only [afterInstall, update_self]
  unfold seccompSetFilter at h ⊢
  split at h
  · simp at h
  next installed hi =>
  simp only at h ⊢
  split at h
  · simp [Errno.code] at h
  next hnone =>
  split at h
  · simp at h
  next hlen =>
  split at h
  · simp at h
  next hmem => simp [hnone, hlen, hmem]

/-! ## Runs -/

/-- The observed task is alone with its filter. -/
structure Alone (t : Pid) (f : SeccompFilter) (w : World) : Prop where
  kin : w.kin = [t]
  seccomp : w.seccomp t = some (some f)

lemma Alone.confined (h : Alone t f w) : Confined f w := by
  intro p hp _ _ _ hd
  rw [h.kin, List.mem_singleton] at hp
  rwa [hp, h.seccomp]

/-- Without a fork that succeeds the task stays alone with its filter. -/
lemma step_alone {op : Op} (h : Alone t f w) (hop : ¬ ForkSucceeds w op)
    (hstep : step w op = some w') : Alone t f w' := by
  cases op with
  | setFilter p filter kmallocOk =>
    simp only [step] at hstep
    split at hstep
    · next hp =>
      cases hstep
      rw [h.kin, List.mem_singleton] at hp
      subst hp
      refine ⟨h.kin, ?_⟩
      simp only [update_self, h.seccomp]
      exact seccompSetFilter_installed filter kmallocOk
    · cases hstep
  | fork p _ =>
    simp only [step] at hstep
    split at hstep
    · next hp =>
      cases hstep
      obtain ⟨hsec, hkin⟩ := sysFork_fails hp hop
      exact ⟨hkin ▸ h.kin, hsec ▸ h.seccomp⟩
    · cases hstep
  | execve p =>
    simp only [step] at hstep
    split at hstep
    · cases hstep; exact h
    · cases hstep

/-- A process without a filter is refused nothing. -/
lemma not_denied_none {nr : Int32} {args : Option (Fin 6 → UInt64)} {beyond : ℕ → UInt8} :
    ¬ Denied (some none) nr args beyond := by
  rintro ⟨_, h⟩
  simp [seccompCheck] at h

/-- After a fork that succeeds, only a filter that refuses nothing confines. -/
lemma ForkSucceeds.not_confined {op : Op} (h : ForkSucceeds w op) {nr : Int32}
    {args : Option (Fin 6 → UInt64)} {beyond : ℕ → UInt8}
    (hf : Denied (some (some f)) nr args beyond) : ¬ Confined f (exec step w op) := by
  intro hc
  obtain ⟨p, env, rfl, hp, -⟩ := id h
  obtain ⟨child, hchild, hnone⟩ := sysFork_succeeds h
  have hexec : exec step w (.fork p env) = (sysFork w p env).2 := by
    simp [exec, step, hp]
  rw [hexec] at hc
  have hd := hc child hchild nr args beyond hf
  rw [hnone] at hd
  exact not_denied_none hd

/-- From a task that is alone with a filter, a run stays confined exactly if no fork of
it succeeds, or if there is nothing that the filter refuses. -/
lemma Alone.prefixes_confined_iff (h : Alone t f w) (ops : List Op) :
    (∀ n, Confined f (run step w (ops.take n))) ↔
      (∀ nr args beyond, ¬ Denied (some (some f)) nr args beyond) ∨
        Along step (fun w op => ¬ ForkSucceeds w op) w ops := by
  constructor
  · intro hc
    by_cases hf : ∀ nr args beyond, ¬ Denied (some (some f)) nr args beyond
    · exact .inl hf
    right
    push Not at hf
    obtain ⟨nr, args, beyond, hf⟩ := hf
    -- the first fork that succeeds would end the confinement
    induction ops generalizing w with
    | nil => trivial
    | cons op ops ih =>
      have hop : ¬ ForkSucceeds w op := by
        intro hfork
        exact hfork.not_confined hf (hc 1)
      refine ⟨hop, ih ?_ fun n => hc (n + 1)⟩
      exact exec_invariant (fun w' hstep => step_alone h hop hstep) h
  · rintro (hf | hno) n
    · intro p _ nr args beyond hd
      exact absurd hd (hf nr args beyond)
    · induction ops generalizing w n with
      | nil => simpa using h.confined
      | cons op ops ih =>
        obtain ⟨hop, hno⟩ := hno
        cases n with
        | zero => exact h.confined
        | succ n =>
          exact ih (exec_invariant (fun w' hstep => step_alone h hop hstep) h) hno n

/-- **A filter confines until the first fork.** After `seccomp_set_filter(t, f)` has
succeeded, every state of a run of the task and its offspring refuses all that `f`
refuses to the task and to every process forked from it, if and only if `f` refuses
nothing at all or no fork of the run succeeds. -/
theorem confined_iff (w : World) (t : Pid) (f : SeccompFilter) (kmallocOk : Bool)
    (hinstall : (seccompSetFilter (w.seccomp t) (some f) kmallocOk).1 = 0) (ops : List Op) :
    (∀ n, Confined f (run step (afterInstall w t f kmallocOk) (ops.take n))) ↔
      (∀ nr args beyond, ¬ Denied (some (some f)) nr args beyond) ∨
        Along step (fun w op => ¬ ForkSucceeds w op) (afterInstall w t f kmallocOk) ops := by
  have halone : Alone t f (afterInstall w t f kmallocOk) := ⟨rfl, afterInstall_seccomp hinstall⟩
  exact halone.prefixes_confined_iff ops

/-- One task, number 2, and no filter. -/
def oneTask : World where
  seccomp := fun p => if p = 2 then some none else none
  pidUsed := fun p => p = 2
  nextPid := 3
  kin := []

/-- A filter with an empty bitmap: it refuses every call. -/
def refuseAll : SeccompFilter := ⟨fun _ => 0, 0, fun _ => ⟨0, 0, 0, 0⟩⟩

theorem confined_oneTask :
    (seccompSetFilter (oneTask.seccomp 2) (some refuseAll) true).1 = 0 ∧
    ∀ n, Confined refuseAll (run step (afterInstall oneTask 2 refuseAll true)
      ([Op.execve 2, .fork 2 ⟨false, false, true, true⟩, .setFilter 2 none true].take n)) := by
  have hinstall : (seccompSetFilter (oneTask.seccomp 2) (some refuseAll) true).1 = 0 := rfl
  refine ⟨hinstall, (confined_iff oneTask 2 refuseAll true hinstall _).2 (.inr ?_)⟩
  refine ⟨?_, ?_, ?_, trivial⟩
  · rintro ⟨p, env, heq, -⟩
    cases heq
  · rintro ⟨p, env, heq, -, hclone, -⟩
    cases heq
    simp at hclone
  · rintro ⟨p, env, heq, -⟩
    cases heq

/-- The child of a task that may call nothing may call everything. -/
theorem not_confined_fork :
    (seccompSetFilter (oneTask.seccomp 2) (some refuseAll) true).1 = 0 ∧
    Denied ((afterInstall oneTask 2 refuseAll true).seccomp 2) 59 none (fun _ => 0) ∧
    seccompCheck 0 ((run step (afterInstall oneTask 2 refuseAll true)
      [.fork 2 ⟨false, true, true, true⟩]).seccomp 3) 59 none (fun _ => 0) = some 0 ∧
    ¬ Confined refuseAll (run step (afterInstall oneTask 2 refuseAll true)
      [.fork 2 ⟨false, true, true, true⟩]) := by
  have hdenied : Denied (some (some refuseAll)) 59 none (fun _ => 0) := ⟨0, rfl⟩
  have hfork : ForkSucceeds (afterInstall oneTask 2 refuseAll true)
      (.fork 2 ⟨false, true, true, true⟩) := by
    refine ⟨2, _, rfl, List.mem_singleton_self 2, .inr rfl, rfl, rfl, ?_⟩
    have hpid : (allocPid (afterInstall oneTask 2 refuseAll true)).1 = some 3 := rfl
    simp [hpid]
  exact ⟨rfl, hdenied, rfl, hfork.not_confined hdenied⟩

end Aurora.Seccomp
