import Aurora.Lib.LockOrder

/-!
# The locks of the run queues

Each CPU has a run queue with a lock. `smp_schedule` (`sched.c`) takes the locks of two queues,
that of the CPU with the lower number first; `smp_steal_task` (`smp.c`) takes the lock of the queue
from which it steals first, whatever its number.

## Main definitions

* `busiest`, `stealFrom`: the scans for the queue to take a task from.
* `smpSchedule`, `smpStealTask`, `smpEnqueueTask`, `smpDequeueTask`: the lock operations.
* `step`: CPUs that make such calls, in any interleaving.
* `StealsIn`: steals are between CPUs in a relation.
* `no_deadlock_iff`: which steals never lead to a deadlock.
-/

namespace Aurora.RunQueue

open Lib Function List

/-- `MAX_CPUS`. -/
def maxCpus : ℕ := 8

variable {n : ℕ}

/-- A scan for the CPU with most tasks among those that may be taken from; `acc` is the best one so
far with its number of tasks, which a CPU with more tasks replaces. -/
def scan (ok : Fin n → Bool) (count : Fin n → ℕ) :
    List (Fin n) → Option (Fin n) × ℕ → Option (Fin n) × ℕ
  | [], acc => acc
  | i :: is, acc =>
    scan ok count is (if ok i = true ∧ acc.2 < count i then (some i, count i) else acc)

/-- The scan of `smp_schedule`, among all CPUs other than `my`. -/
def busiest (count : Fin n → ℕ) (my : Fin n) : Option (Fin n) × ℕ :=
  scan (fun i => i ≠ my) count (finRange n) (none, 0)

/-- The scan of `smp_steal_task`, among the CPUs other than the target that are online and have more
than one task. -/
def stealFrom (count : Fin n → ℕ) (online : Fin n → Bool) (target : Fin n) : Option (Fin n) :=
  (scan (fun i => i ≠ target ∧ online i = true ∧ 1 < count i) count (finRange n) (none, 0)).1

/-- What `smp_schedule` locks and unlocks, with the numbers of tasks that its scan finds. After
the locks were taken, the numbers may be other ones; but both branches release both locks. -/
def smpSchedule (count : Fin n → ℕ) (my : Fin n) : List (Action ℕ) :=
  if 1 < count my then []
  else
    match busiest count my with
    | (none, _) => []
    | (some src, max) =>
      if max ≤ 1 then []
      else if my < src then [.acquire my, .acquire src, .release src, .release my]
      else [.acquire src, .acquire my, .release src, .release my]

/-- What `smp_steal_task` locks and unlocks. -/
def smpStealTask (count : Fin n → ℕ) (online : Fin n → Bool) (target : Fin n) :
    List (Action ℕ) :=
  match stealFrom count online target with
  | none => []
  | some src => [.acquire src, .acquire target, .release target, .release src]

/-- What `smp_enqueue_task` locks and unlocks. -/
def smpEnqueueTask (n : ℕ) (cpuId : ℤ) : List (Action ℕ) :=
  if cpuId < 0 ∨ (maxCpus : ℤ) ≤ cpuId then []
  else if (n : ℤ) ≤ cpuId then []
  else [.acquire cpuId.toNat, .release cpuId.toNat]

/-- What `smp_dequeue_task` locks and unlocks; `empty` says whether it finds the queue empty. -/
def smpDequeueTask (cpuId : ℤ) (empty : Bool) : List (Action ℕ) :=
  if cpuId < 0 ∨ (maxCpus : ℤ) ≤ cpuId then []
  else if empty then []
  else [.acquire cpuId.toNat, .release cpuId.toNat]

/-- The calls of a CPU; what the scans find is arbitrary. -/
inductive Call (n : ℕ)
  | schedule (count : Fin n → ℕ) (my : Fin n)
  | steal (count : Fin n → ℕ) (online : Fin n → Bool) (target : Fin n)
  | enqueue (cpuId : ℤ)
  | dequeue (cpuId : ℤ) (empty : Bool)

/-- The locks that a call takes and releases. -/
def Call.actions : Call n → List (Action ℕ)
  | .schedule count my => smpSchedule count my
  | .steal count online target => smpStealTask count online target
  | .enqueue cpuId => smpEnqueueTask n cpuId
  | .dequeue cpuId empty => smpDequeueTask cpuId empty

/-- A CPU makes a call, or goes on with it. -/
inductive Op (n : ℕ)
  | call (cpu : Fin n) (c : Call n)
  | act (cpu : Fin n)

/-- One step of one CPU. -/
def step (s : Locks (Fin n) ℕ) : Op n → Option (Locks (Fin n) ℕ)
  | .call cpu c => s.start cpu c.actions
  | .act cpu => s.act cpu

/-- Steals are from and to CPUs in the relation. -/
def StealsIn (R : Fin n → Fin n → Prop) (_ : Locks (Fin n) ℕ) : Op n → Prop
  | .call _ (.steal count online target) =>
      ∀ src, stealFrom count online target = some src → R src target
  | _ => True

/-! ## The scans -/

variable {count : Fin n → ℕ} {src : Fin n}

/-- What a scan finds may be taken from. -/
lemma scan_ok {ok : Fin n → Bool} {is : List (Fin n)} {acc : Option (Fin n) × ℕ}
    (h : (scan ok count is acc).1 = some src) : acc.1 = some src ∨ ok src = true := by
  induction is generalizing acc with
  | nil => exact .inl h
  | cons i is ih =>
    obtain hacc | hok := ih h
    · split at hacc
      · rename_i hi
        cases hacc
        exact .inr hi.1
      · exact .inl hacc
    · exact .inr hok

/-- A scan finds the only CPU with tasks. -/
lemma scan_only {ok : Fin n → Bool} (hok : ok src = true) (is : List (Fin n))
    {acc : Option (Fin n) × ℕ} (hacc : acc = (some src, 2) ∨ acc = (none, 0) ∧ src ∈ is) :
    scan ok (fun i => if i = src then 2 else 0) is acc = (some src, 2) := by
  induction is generalizing acc with
  | nil =>
    obtain hacc | ⟨-, hmem⟩ := hacc
    · exact hacc
    · cases hmem
  | cons i is ih =>
    refine ih ?_
    by_cases hi : i = src
    · refine .inl ?_
      obtain rfl | ⟨rfl, -⟩ := hacc
      · simp [hi]
      · simp [hi, hok]
    · obtain rfl | ⟨rfl, hmem⟩ := hacc
      · exact .inl (by simp [hi])
      · exact .inr ⟨by simp [hi], (mem_cons.1 hmem).resolve_left (Ne.symm hi)⟩

lemma busiest_ne {my : Fin n} {max : ℕ} (h : busiest count my = (some src, max)) : src ≠ my := by
  obtain hacc | hok := scan_ok (congrArg Prod.fst h)
  · cases hacc
  · exact of_decide_eq_true hok

lemma stealFrom_ne {online : Fin n → Bool} {target : Fin n}
    (h : stealFrom count online target = some src) : src ≠ target := by
  obtain hacc | hok := scan_ok h
  · cases hacc
  · exact (of_decide_eq_true hok).1

/-! ## No deadlock -/

/-- `smp_schedule` takes its locks in ascending order. -/
lemma climbs_smpSchedule (count : Fin n → ℕ) (my : Fin n) : Climbs [] (smpSchedule count my) := by
  unfold smpSchedule
  split
  · rfl
  split
  · rfl
  · rename_i src max hbusy
    have hne := busiest_ne hbusy
    split
    · rfl
    split
    · rename_i hlt
      simp [Climbs, hlt]
    · rename_i hle
      have hlt : src < my := lt_of_le_of_ne (not_lt.1 hle) hne
      simp [Climbs, hlt, Fin.val_ne_of_ne hne.symm]

/-- `smp_steal_task` does if it steals from a lower CPU. -/
lemma climbs_smpStealTask {online : Fin n → Bool} {target : Fin n}
    (h : ∀ src, stealFrom count online target = some src → src < target) :
    Climbs [] (smpStealTask count online target) := by
  unfold smpStealTask
  split
  · rfl
  · rename_i src hsrc
    have hlt := h src hsrc
    simp [Climbs, hlt]

lemma climbs_single (l : ℕ) : Climbs [] [Action.acquire l, .release l] := by
  simp [Climbs]

/-- A call whose steal is from a lower CPU climbs. -/
lemma climbs_actions {s : Locks (Fin n) ℕ} {cpu : Fin n} {c : Call n}
    (h : StealsIn (· < ·) s (.call cpu c)) : Climbs [] c.actions := by
  cases c with
  | schedule count my => exact climbs_smpSchedule count my
  | steal count _ _ => exact climbs_smpStealTask h
  | enqueue cpuId =>
    simp only [Call.actions, smpEnqueueTask]
    split
    · rfl
    split
    · rfl
    · exact climbs_single _
  | dequeue cpuId _ =>
    simp only [Call.actions, smpDequeueTask]
    split
    · rfl
    split
    · rfl
    · exact climbs_single _

/-- **No deadlock** along runs in which steals are from lower CPUs. -/
lemma orderly_run {ops : List (Op n)} (h : Along step (StealsIn (· < ·)) .init ops) :
    (run step .init ops).Orderly := by
  refine run_invariant_along (fun s op s' hs hop hstep => ?_) Locks.orderly_init h
  cases op with
  | call cpu c => exact hs.start (climbs_actions hop) hstep
  | act cpu => exact hs.act hstep

/-- A CPU steals from a higher one, which at the same time balances its own queue: each holds the
lock that the other one waits for. -/
lemma deadlock_of_lt {dst : Fin n} (h : dst < src) :
    ∃ count, stealFrom count (fun _ => true) dst = some src ∧
      (run step .init [.call dst (.steal count (fun _ => true) dst),
        .call src (.schedule (fun i => if i = dst then 2 else 0) src), .act dst,
        .act src]).Deadlock := by
  have hsteal : stealFrom (fun i => if i = src then 2 else 0) (fun _ => true) dst = some src := by
    unfold stealFrom
    rw [scan_only (by simp [h.ne']) _ (.inr ⟨rfl, mem_finRange src⟩)]
  have hbusy : busiest (fun i => if i = dst then 2 else 0) src = (some dst, 2) :=
    scan_only (by simp [h.ne]) _ (.inr ⟨rfl, mem_finRange dst⟩)
  have hfirst : smpStealTask (fun i => if i = src then 2 else 0) (fun _ => true) dst =
      [.acquire src, .acquire dst, .release dst, .release src] := by
    rw [smpStealTask, hsteal]
  have hsecond : smpSchedule (fun i => if i = dst then 2 else 0) src =
      [.acquire dst, .acquire src, .release dst, .release src] := by
    rw [smpSchedule, if_neg (by simp [h.ne']), hbusy]
    simp [h.not_gt]
  have hvals : (src : ℕ) ≠ dst := Fin.val_ne_of_ne h.ne'
  refine ⟨fun i => if i = src then 2 else 0, hsteal, {src, dst}, ⟨src, by simp⟩, ?_⟩
  simp only [run, List.foldl, exec, step, Call.actions, hfirst, hsecond, Locks.init, Locks.start,
    Locks.act, Option.getD_some, update_self, update_of_ne h.ne,
    update_of_ne h.ne', update_of_ne hvals.symm]
  rintro p (rfl | rfl)
  · refine ⟨dst, .inr rfl, h.ne, p, ⟨_, update_self ..⟩, ?_⟩
    simp [hvals]
  · refine ⟨src, .inl rfl, h.ne', p, ⟨_, (update_of_ne h.ne _ _).trans
      (update_self ..)⟩, update_self ..⟩

/-- **Which steals are safe.** There is no deadlock in any run whose steals are all of a kind
exactly if these steals are from CPUs with lower numbers. -/
theorem no_deadlock_iff (n : ℕ) (R : Fin n → Fin n → Prop) :
    (∀ ops, Along step (StealsIn R) .init ops → ¬ (run step .init ops).Deadlock) ↔
      ∀ src dst, src ≠ dst → R src dst → src < dst := by
  constructor
  · intro hfree src dst hne hsteal
    by_contra hle
    obtain ⟨count, hscan, hdead⟩ := deadlock_of_lt (lt_of_le_of_ne (not_lt.1 hle) hne.symm)
    refine hfree _ ?_ hdead
    refine ⟨fun src' hsrc' => ?_, trivial, trivial, trivial, trivial⟩
    cases hscan.symm.trans hsrc'
    exact hsteal
  · intro hdown ops hops
    refine (orderly_run ?_).not_deadlock
    refine hops.mono (I := fun _ => True) (fun s op _ hop => ?_) (fun _ _ _ _ => trivial) trivial
    cases op with
    | call cpu c =>
      cases c with
      | steal count _ target =>
        exact fun src hsrc => hdown src target (stealFrom_ne hsrc) (hop src hsrc)
      | _ => trivial
    | act cpu => trivial

/-- Two application processors that steal from each other. -/
theorem deadlock_steals :
    (run (step (n := 3)) .init
      [.call 1 (.steal (fun i => if i = 2 then 2 else 0) (fun _ => true) 1),
        .call 2 (.steal (fun i => if i = 1 then 2 else 0) (fun _ => true) 2),
        .act 1, .act 2]).Deadlock := by
  refine ⟨{1, 2}, ⟨1, .inl rfl⟩, fun p hp => ?_⟩
  rcases hp with rfl | rfl
  · exact ⟨2, .inr rfl, by decide, 1, ⟨_, rfl⟩, rfl⟩
  · exact ⟨1, .inl rfl, by decide, 2, ⟨_, rfl⟩, rfl⟩

end Aurora.RunQueue
