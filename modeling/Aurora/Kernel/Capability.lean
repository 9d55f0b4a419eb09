import Aurora.Kernel.FdTable
import Aurora.Kernel.Task

/-!
# Capability entries

Descriptors with rights (`capability.c`). A slot of a task's table holds an entry with a file and
a set of rights to it; entries are derived with fewer rights, and sent to other tasks.

## Main definitions

* `Sys`: the tables of the tasks, and the reference counts of the files.
* `capFdAlloc`, `capGet`, `capFdClose`, `fdDerive`, `fdSend`: the operations.
* `Confined`: an operation passes on no right that its source did not have.
* `Balanced`: an operation changes reference counts as it changes the numbers of entries.
* `Backed`: an entry is allocated for a file with a reference to spare.
* `confined_along`: every run is confined, and those with backed entries are balanced.
-/

namespace Aurora.Capability

open Lib Aurora.Fd Function Option List

/-- `struct cap_entry`; the file is named by its address. -/
structure CapEntry where
  magic : UInt32
  file : UInt64
  caps : UInt32
  deriving DecidableEq

/-- `CAP_SEND`. -/
def capSend : UInt32 := 0x8

/-- A set of rights is included in another one. -/
def Included (a b : UInt32) : Prop := a &&& ~~~b = 0

/-- The tasks, with their process number, state, and the process numbers of their children; the
tables, which hold pointers to entries, `none` in an unused slot; and the reference counts of the
files, `0` once the file was released. -/
structure Sys (n : ℕ) where
  pid : Fin n → ℤ
  state : Fin n → TaskState
  children : Fin n → List ℤ
  fdTable : Key n → Option CapEntry
  refcount : UInt64 → ℤ

variable {n : ℕ}

/-- `vfs_file_dup`. -/
def vfsFileDup (s : Sys n) (f : UInt64) : Sys n :=
  if s.refcount f ≤ 0 then s
  else { s with refcount := Function.update s.refcount f (s.refcount f + 1) }

/-- `vfs_close`. -/
def vfsClose (s : Sys n) (f : UInt64) : Sys n :=
  if s.refcount f ≤ 0 then s
  else { s with refcount := Function.update s.refcount f (s.refcount f - 1) }

/-- `cap_get`, with the number of the slot. -/
def capGet (s : Sys n) (t : Fin n) (fd : ℤ) : Option (Fin maxFds × CapEntry) :=
  (slotOf fd).bind fun i =>
    (s.fdTable (t, i)).bind fun entry =>
      if entry.magic ≠ capEntryMagic then none else some (i, entry)

/-- The rights a task holds, through whatever entries. -/
def heldCaps (s : Sys n) (t : Fin n) : UInt32 :=
  (finRange maxFds).foldl (fun held (i : Fin maxFds) =>
    match capGet s t i with
    | some (_, e) => held ||| e.caps
    | none => held) 0

/-- `cap_fd_alloc`, where `mem` says whether there is memory for the entry. -/
def capFdAlloc (s : Sys n) (t : Fin n) (filp : UInt64) (caps : UInt32) (mem : Bool) : Sys n × ℤ :=
  if filp = 0 then (s, -1)
  else if s.pid t ≠ 1 ∧ caps &&& ~~~heldCaps s t ≠ 0 then (s, -1)
  else if mem = false then (s, -1)
  else
    match (finRange maxFds).find? fun i => (s.fdTable (t, i)).isNone with
    | some i =>
      ({ s with fdTable := Function.update s.fdTable (t, i) (some ⟨capEntryMagic, filp, caps⟩) }, i)
    | none => (s, -1)

/-- `cap_fd_close`. -/
def capFdClose (s : Sys n) (t : Fin n) (fd : ℤ) : Sys n × ℤ :=
  match capGet s t fd with
  | none => (s, -1)
  | some (i, entry) =>
    let s' := vfsClose s entry.file
    ({ s' with fdTable := Function.update s'.fdTable (t, i) none }, 0)

/-- `fd_derive` by the task `cur`. -/
def fdDerive (s : Sys n) (cur : Fin n) (oldFd : ℤ) (newCaps : UInt32) (mem : Bool) : Sys n × ℤ :=
  match capGet s cur oldFd with
  | none => (s, -1)
  | some (_, entry) =>
    if newCaps &&& ~~~entry.caps ≠ 0 then (s, -1)
    else
      match capFdAlloc (vfsFileDup s entry.file) cur entry.file newCaps mem with
      | (s', newFd) => if newFd < 0 then (vfsClose s' entry.file, newFd) else (s', newFd)

/-- `MAX_PID`. -/
def maxPid : ℤ := 8192

/-- `task_get_by_pid`, which does not return a dead task. -/
def taskGetByPid (s : Sys n) (pid : ℤ) : Option (Fin n) :=
  if pid < 0 ∨ maxPid ≤ pid then none
  else (finRange n).find? fun t => s.pid t = pid ∧ s.state t ≠ .dead

/-- `fd_send` by the task `cur`. -/
def fdSend (s : Sys n) (cur : Fin n) (fd : ℤ) (targetPid : ℤ) (mem : Bool) : Sys n × ℤ :=
  match capGet s cur fd with
  | none => (s, -1)
  | some (i, entry) =>
    if entry.caps &&& capSend = 0 then (s, -1)
    else if targetPid = s.pid cur then (s, -1)
    else
      match taskGetByPid s targetPid with
      | none => (s, -1)
      | some target =>
        if s.state target = .dead ∨ s.state target = .zombie then (s, -1)
        else if s.pid cur ≠ 1 ∧ targetPid ∉ s.children cur then (s, -1)
        else
          match capFdAlloc s target entry.file entry.caps mem with
          | (s', newFd) =>
            if newFd < 0 then (s', -1)
            else ({ s' with fdTable := Function.update s'.fdTable (cur, i) none }, 0)

/-! ## Runs -/

/-- The operations: `cap_fd_alloc` by the task with process number `1`, the others by any task;
and tasks start, exit and change their state. -/
inductive Op (n : ℕ)
  | alloc (t : Fin n) (filp : UInt64) (caps : UInt32) (mem : Bool)
  | derive (cur : Fin n) (oldFd : ℤ) (newCaps : UInt32) (mem : Bool)
  | send (cur : Fin n) (fd targetPid : ℤ) (mem : Bool)
  | close (t : Fin n) (fd : ℤ)
  | tasks (state : Fin n → TaskState) (children : Fin n → List ℤ)

/-- What an operation does, and returns. -/
def act (s : Sys n) : Op n → Option (Sys n × ℤ)
  | .alloc t filp caps mem => if s.pid t = 1 then some (capFdAlloc s t filp caps mem) else none
  | .derive cur oldFd newCaps mem => some (fdDerive s cur oldFd newCaps mem)
  | .send cur fd targetPid mem => some (fdSend s cur fd targetPid mem)
  | .close t fd => some (capFdClose s t fd)
  | .tasks state children => some ({ s with state, children }, 0)

/-- One operation. -/
def step (s : Sys n) (op : Op n) : Option (Sys n) := (act s op).map Prod.fst

/-- How many entries name the file. -/
def Sys.entries (s : Sys n) (f : UInt64) : ℕ :=
  holders (fun k => (s.fdTable k).map CapEntry.file) (keys n) f

/-- The operation passes entries on: `fd_derive` or `fd_send`. -/
def Op.passes : Op n → Prop
  | .derive .. | .send .. => True
  | _ => False

/-- A new entry of a task other than init was passed on, and some entry for the same file had its
rights before; what is sent moves from one table to the other; what is derived is a new entry with
fewer rights; and an operation that fails changes nothing. -/
structure Confined (s : Sys n) (op : Op n) : Prop where
  source : ∀ s' ret, act s op = some (s', ret) → ∀ k e, s.pid k.1 ≠ 1 → s'.fdTable k = some e →
    s.fdTable k = some e ∨
      op.passes ∧ ∃ k₀ e₀, s.fdTable k₀ = some e₀ ∧ e₀.file = e.file ∧ Included e.caps e₀.caps
  sent : ∀ cur fd pid mem s' ret, op = .send cur fd pid mem → act s op = some (s', ret) →
    0 ≤ ret → ∃ i e k, slotOf fd = some i ∧ s.fdTable (cur, i) = some e ∧ s.pid k.1 = pid ∧
      s.fdTable k = none ∧
      s'.fdTable = Function.update (Function.update s.fdTable k (some e)) (cur, i) none
  derived : ∀ cur fd caps mem s' ret, op = .derive cur fd caps mem → act s op = some (s', ret) →
    0 ≤ ret → ∃ i e j, slotOf fd = some i ∧ s.fdTable (cur, i) = some e ∧ ret = (j : Fin maxFds) ∧
      s.fdTable (cur, j) = none ∧ Included caps e.caps ∧
      s'.fdTable = Function.update s.fdTable (cur, j) (some ⟨capEntryMagic, e.file, caps⟩)
  failed : ∀ s' ret, act s op = some (s', ret) → ret < 0 →
    s'.fdTable = s.fdTable ∧ s'.refcount = s.refcount

/-- The reference count of each file changes as the number of its entries. -/
def Balanced (s : Sys n) : Op n → Prop
  | .alloc .. => True
  | op => ∀ s' ret, act s op = some (s', ret) → ∀ f,
      s'.refcount f - s.refcount f = (s'.entries f : ℤ) - s.entries f

/-- There are more references to the file than entries that name it. -/
def Backed (s : Sys n) : Op n → Prop
  | .alloc _ filp _ _ => (s.entries filp : ℤ) < s.refcount filp
  | _ => True

/-! ## The operations one by one -/

section

variable {e : CapEntry} {k : Key n}

variable {s s' : Sys n} {t cur : Fin n} {fd : ℤ}

lemma capGet_eq_some {i : Fin maxFds} (h : capGet s t fd = some (i, e)) :
    slotOf fd = some i ∧ s.fdTable (t, i) = some e ∧ e.magic = capEntryMagic := by
  obtain ⟨_, hi, h⟩ := bind_eq_some_iff.1 h
  obtain ⟨_, he, h⟩ := bind_eq_some_iff.1 h
  split_ifs at h with hmagic
  cases h
  exact ⟨hi, he, not_not.1 hmagic⟩

section

variable (s : Sys n) (f : UInt64)

/-- `cap_fd_alloc` fills an unused slot, or fails. -/
lemma capFdAlloc_cases (t : Fin n) (filp : UInt64) (caps : UInt32) (mem : Bool) :
    (∃ i, s.fdTable (t, i) = none ∧ capFdAlloc s t filp caps mem =
      ({ s with fdTable := update s.fdTable (t, i) (some ⟨capEntryMagic, filp, caps⟩) }, (i : ℤ))) ∨
    capFdAlloc s t filp caps mem = (s, -1) := by
  unfold capFdAlloc
  split
  · exact .inr rfl
  · split
    · exact .inr rfl
    · split
      · exact .inr rfl
      · cases h : (finRange maxFds).find? fun i => (s.fdTable (t, i)).isNone with
        | none => exact .inr rfl
        | some i =>
          have hfree := find?_some h
          exact .inl ⟨i, isNone_iff_eq_none.1 hfree, rfl⟩

/-- Taking a reference and giving it back changes nothing. -/
lemma vfsClose_vfsFileDup : vfsClose (vfsFileDup s f) f = s := by
  unfold vfsFileDup
  split
  · rename_i hneg
    rw [vfsClose, if_pos hneg]
  · rename_i hpos
    simp only [vfsClose, update_self, update_idem]
    rw [if_neg (by omega), Int.add_sub_cancel, update_eq_self]

@[simp] lemma vfsFileDup_fdTable : (vfsFileDup s f).fdTable = s.fdTable := by
  unfold vfsFileDup
  split <;> rfl

@[simp] lemma vfsClose_fdTable : (vfsClose s f).fdTable = s.fdTable := by
  unfold vfsClose
  split <;> rfl

/-- What an operation comes to: it fails and changes nothing; `cap_fd_alloc` fills a slot of init;
`fd_derive` adds an entry with rights of the source and takes a reference; `fd_send` moves an entry
to the table of another task; `cap_fd_close` clears a slot and drops a reference to its file. -/
inductive Done (s : Sys n) : Op n → Sys n → ℤ → Prop
  | failed {op : Op n} : Done s op s (-1)
  | alloc {t : Fin n} {filp : UInt64} {caps : UInt32} {mem : Bool} {i : Fin maxFds}
      (hpid : s.pid t = 1) (hi : s.fdTable (t, i) = none) :
      Done s (.alloc t filp caps mem) { s with
        fdTable := update s.fdTable (t, i) (some ⟨capEntryMagic, filp, caps⟩) } i
  | derive {cur : Fin n} {fd : ℤ} {caps : UInt32} {mem : Bool} {i j : Fin maxFds} {e : CapEntry}
      (hslot : slotOf fd = some i) (he : s.fdTable (cur, i) = some e)
      (hj : s.fdTable (cur, j) = none) (hsub : Included caps e.caps) :
      Done s (.derive cur fd caps mem) { vfsFileDup s e.file with
        fdTable := update s.fdTable (cur, j) (some ⟨capEntryMagic, e.file, caps⟩) } j
  | send {cur : Fin n} {fd pid : ℤ} {mem : Bool} {i : Fin maxFds} {e : CapEntry} {k : Key n}
      (hslot : slotOf fd = some i) (he : s.fdTable (cur, i) = some e) (hpid : s.pid k.1 = pid)
      (hne : k.1 ≠ cur) (hk : s.fdTable k = none) :
      Done s (.send cur fd pid mem) { s with
        fdTable := update (update s.fdTable k (some e)) (cur, i) none } 0
  | close {t : Fin n} {fd : ℤ} {i : Fin maxFds} {e : CapEntry} (he : s.fdTable (t, i) = some e) :
      Done s (.close t fd) { vfsClose s e.file with fdTable := update s.fdTable (t, i) none } 0
  | tasks {state : Fin n → TaskState} {children : Fin n → List ℤ} :
      Done s (.tasks state children) { s with state, children } 0

lemma done_derive (cur : Fin n) (oldFd : ℤ) (newCaps : UInt32) (mem : Bool) :
    Done s (.derive cur oldFd newCaps mem) (fdDerive s cur oldFd newCaps mem).1
      (fdDerive s cur oldFd newCaps mem).2 := by
  unfold fdDerive
  cases hget : capGet s cur oldFd with
  | none => exact .failed
  | some p =>
    obtain ⟨i, e⟩ := p
    obtain ⟨hi, he, -⟩ := capGet_eq_some hget
    by_cases hsub : newCaps &&& ~~~e.caps ≠ 0
    · simp only [if_pos hsub]
      exact .failed
    · simp only [if_neg hsub]
      obtain ⟨j, hj, halloc⟩ | halloc :=
        capFdAlloc_cases (vfsFileDup s e.file) cur e.file newCaps mem
      · rw [halloc]
        simp only [vfsFileDup_fdTable] at hj ⊢
        rw [if_neg (by omega)]
        exact .derive hi he hj (not_not.1 hsub)
      · rw [halloc]
        simp only
        rw [if_pos (by decide), vfsClose_vfsFileDup]
        exact .failed

lemma done_send (cur : Fin n) (fd targetPid : ℤ) (mem : Bool) :
    Done s (.send cur fd targetPid mem) (fdSend s cur fd targetPid mem).1
      (fdSend s cur fd targetPid mem).2 := by
  unfold fdSend
  cases hget : capGet s cur fd with
  | none => exact .failed
  | some p =>
    obtain ⟨i, e⟩ := p
    obtain ⟨hi, he, hmagic⟩ := capGet_eq_some hget
    simp only
    split
    · exact .failed
    split
    · exact .failed
    rename_i hself
    cases htarget : taskGetByPid s targetPid with
    | none => exact .failed
    | some target =>
      simp only
      split
      · exact .failed
      split
      · exact .failed
      have hpid : s.pid target = targetPid := by
        unfold taskGetByPid at htarget
        split_ifs at htarget
        have hfound := find?_some htarget
        exact (of_decide_eq_true hfound).1
      obtain ⟨j, hj, halloc⟩ | halloc := capFdAlloc_cases s target e.file e.caps mem
      · rw [halloc, if_neg (by omega), ← hmagic]
        refine .send (k := (target, j)) hi he hpid ?_ hj
        rintro rfl
        exact hself hpid.symm
      · rw [halloc]
        exact .failed

lemma done_close (t : Fin n) (fd : ℤ) :
    Done s (.close t fd) (capFdClose s t fd).1 (capFdClose s t fd).2 := by
  unfold capFdClose
  cases hget : capGet s t fd with
  | none => exact .failed
  | some p =>
    obtain ⟨i, e⟩ := p
    obtain ⟨-, he, -⟩ := capGet_eq_some hget
    simp only [vfsClose_fdTable]
    exact .close he

end

/-! ## Confinement -/

/-- Where an entry comes from. -/
def Sourced (s : Sys n) (e : CapEntry) : Prop :=
  ∃ k₀ e₀, s.fdTable k₀ = some e₀ ∧ e₀.file = e.file ∧ Included e.caps e₀.caps

/-- The entry of a slot that was filled is the new one, or an old one. -/
lemma of_update {k' : Key n} {e' : CapEntry} {f : Key n → Option CapEntry}
    (h : update f k (some e) k' = some e') : k' = k ∧ e' = e ∨ f k' = some e' := by
  by_cases hk : k' = k
  · rw [hk, update_self] at h
    exact .inl ⟨hk, (some.inj h).symm⟩
  · rw [update_of_ne hk] at h
    exact .inr h

lemma of_clear {k' : Key n} {e' : CapEntry} {f : Key n → Option CapEntry}
    (h : update f k none k' = some e') : f k' = some e' := by
  by_cases hk : k' = k
  · simp [hk, update_self] at h
  · rwa [update_of_ne hk] at h

lemma act_done {op : Op n} {ret : ℤ} (hrun : act s op = some (s', ret)) : Done s op s' ret := by
  cases op with
  | alloc t filp caps mem =>
    simp only [act] at hrun
    split at hrun
    · next hpid =>
      obtain ⟨i, hi, halloc⟩ | halloc := capFdAlloc_cases s t filp caps mem <;>
        cases halloc.symm.trans (some.inj hrun)
      · exact .alloc hpid hi
      · exact .failed
    · cases hrun
  | derive cur fd caps mem =>
    have hdone := done_derive s cur fd caps mem
    rwa [some.inj hrun] at hdone
  | send cur fd pid mem =>
    have hdone := done_send s cur fd pid mem
    rwa [some.inj hrun] at hdone
  | close t fd =>
    have hdone := done_close s t fd
    rwa [some.inj hrun] at hdone
  | tasks _ _ =>
    cases hrun
    exact .tasks

/-- Where the entries come from, unless `cap_fd_alloc` makes one. -/
lemma source_of_act {op : Op n} {ret : ℤ} (hop : ∀ t filp caps mem, op ≠ .alloc t filp caps mem)
    (hrun : act s op = some (s', ret)) (he : s'.fdTable k = some e) :
    s.fdTable k = some e ∨ op.passes ∧ Sourced s e := by
  cases act_done hrun with
  | failed | tasks => exact .inl he
  | alloc => exact absurd rfl (hop _ _ _ _)
  | derive _ he0 _ hsub =>
    obtain ⟨-, rfl⟩ | hold := of_update he
    · exact .inr ⟨trivial, _, _, he0, rfl, hsub⟩
    · exact .inl hold
  | send _ he0 =>
    obtain ⟨-, rfl⟩ | hold := of_update (of_clear he)
    · exact .inr ⟨trivial, _, e, he0, rfl, UInt32.and_not_self⟩
    · exact .inl hold
  | close => exact .inl (of_clear he)

/-- **Every operation is confined.** -/
lemma confined (s : Sys n) (op : Op n) : Confined s op where
  source := by
    intro s' ret hrun k e hk he
    cases op with
    | alloc t _ caps mem =>
      cases act_done hrun with
      | failed => exact .inl he
      | alloc hpid =>
        -- init changes no other table
        obtain ⟨rfl, -⟩ | hold := of_update he
        · exact absurd hpid hk
        · exact .inl hold
    | _ => exact source_of_act nofun hrun he
  sent := by
    rintro cur fd _ mem s' ret rfl hrun hret
    cases act_done hrun with
    | failed => omega
    | send hi he hpid _ hk => exact ⟨_, _, _, hi, he, hpid, hk, rfl⟩
  derived := by
    rintro cur fd caps mem s' ret rfl hrun hret
    cases act_done hrun with
    | failed => omega
    | derive hi he hj hsub => exact ⟨_, _, _, hi, he, rfl, hj, hsub, rfl⟩
  failed := by
    intro s' ret hrun hret
    cases act_done hrun with
    | failed => exact ⟨rfl, rfl⟩
    | _ => omega

/-! ## Balance -/

/-- Files with entries have as many references as entries at least. -/
def Covered (s : Sys n) : Prop := ∀ f, 0 < s.entries f → (s.entries f : ℤ) ≤ s.refcount f

/-- One slot changes. -/
lemma entries_update (k : Key n) (y : Option CapEntry) (f : UInt64)
    (htable : s'.fdTable = update s.fdTable k y) :
    s'.entries f + (if (s.fdTable k).map CapEntry.file = some f then 1 else 0) =
      s.entries f + (if y.map CapEntry.file = some f then 1 else 0) := by
  have hcomp : (fun k' => (s'.fdTable k').map CapEntry.file) =
      update (fun k' => (s.fdTable k').map CapEntry.file) k (y.map CapEntry.file) := by
    rw [htable]
    exact comp_update (Option.map CapEntry.file) s.fdTable k y
  rw [Sys.entries, hcomp]
  exact holders_set (fun k' => (s.fdTable k').map CapEntry.file) k (y.map CapEntry.file) f

lemma entries_pos (h : s.fdTable k = some e) : 0 < s.entries e.file :=
  one_le_holders (mem_keys k) (by rw [h]; rfl)

lemma refcount_vfsFileDup {g : UInt64} (hg : 0 < s.refcount g) (f : UInt64) :
    (vfsFileDup s g).refcount f = s.refcount f + if f = g then 1 else 0 := by
  rw [vfsFileDup, if_neg (by omega)]
  by_cases hf : f = g
  · rw [if_pos hf, hf]
    exact update_self ..
  · rw [if_neg hf, Int.add_zero]
    exact update_of_ne hf ..

lemma refcount_vfsClose {g : UInt64} (hg : 0 < s.refcount g) (f : UInt64) :
    (vfsClose s g).refcount f = s.refcount f - if f = g then 1 else 0 := by
  rw [vfsClose, if_neg (by omega)]
  by_cases hf : f = g
  · rw [if_pos hf, hf]
    exact update_self ..
  · rw [if_neg hf, Int.sub_zero]
    exact update_of_ne hf ..

lemma Covered.refcount_pos (h : Covered s) (hk : s.fdTable k = some e) : 0 < s.refcount e.file := by
  have hpos := entries_pos hk
  have hle := h e.file hpos
  omega

/-- A new entry for a file adds one to the number of its entries. -/
lemma entries_fill (hk : s.fdTable k = none)
    (htable : s'.fdTable = update s.fdTable k (some e)) (f : UInt64) :
    s'.entries f = s.entries f + if f = e.file then 1 else 0 := by
  simpa [hk, eq_comm (a := f)] using entries_update k (some e) f htable

/-- An entry that is cleared takes one from it. -/
lemma entries_clear (hk : s.fdTable k = some e)
    (htable : s'.fdTable = update s.fdTable k none) (f : UInt64) :
    s'.entries f + (if f = e.file then 1 else 0) = s.entries f := by
  simpa [hk, eq_comm (a := f)] using entries_update k none f htable

/-- `fd_derive` adds one entry and one reference, `fd_send` moves an entry, and `cap_fd_close` takes
one entry and one reference. -/
lemma Covered.conserved {op : Op n} {ret : ℤ} (h : Covered s)
    (hop : ∀ t filp caps mem, op ≠ .alloc t filp caps mem) (hrun : act s op = some (s', ret))
    (f : UInt64) : s'.refcount f - s.refcount f = (s'.entries f : ℤ) - s.entries f := by
  cases act_done hrun with
  | failed => rw [Int.sub_self, Int.sub_self]
  | alloc => exact absurd rfl (hop _ _ _ _)
  | @derive cur _ caps _ _ j e _ he hj =>
    have hentries := entries_fill hj (rfl : Sys.fdTable { vfsFileDup s e.file with
      fdTable := update s.fdTable (cur, j) (some ⟨capEntryMagic, e.file, caps⟩) } = _) f
    have hcount := refcount_vfsFileDup (h.refcount_pos he) f
    rw [hentries, hcount]
    split <;> omega
  | @send cur _ _ _ i e k _ he _ hne hk =>
    set s1 : Sys n := { s with
      fdTable := update s.fdTable k (some e) } with hs1
    have htable : s1.fdTable = update s.fdTable k (some e) := by rw [hs1]
    have hslot : s1.fdTable (cur, i) = some e := by
      rwa [htable, update_of_ne fun heq => hne (congrArg Prod.fst heq).symm]
    have hfill := entries_fill hk htable f
    have hclear := entries_clear hslot (rfl : Sys.fdTable { s with
      fdTable := update s1.fdTable (cur, i) none } = _) f
    rw [htable] at hclear
    simp only at hclear ⊢
    omega
  | @close t _ i e he =>
    have hentries := entries_clear he (rfl : Sys.fdTable { vfsClose s e.file with
      fdTable := update s.fdTable (t, i) none } = _) f
    have hcount := refcount_vfsClose (h.refcount_pos he) f
    rw [hcount, ← hentries]
    split <;> omega
  | tasks =>
    rw [Int.sub_self]
    exact (Int.sub_self _).symm

/-- **Balance**, as long as files have references enough. -/
lemma Covered.balanced (h : Covered s) (op : Op n) : Balanced s op := by
  cases op with
  | alloc t _ _ _ => trivial
  | _ => exact fun _ _ hrun => h.conserved (by nofun) hrun

/-- A balanced operation on files that have entries leaves references enough. -/
lemma Covered.of_balanced (h : Covered s)
    (hbal : ∀ f, s'.refcount f - s.refcount f = (s'.entries f : ℤ) - s.entries f)
    (hzero : ∀ f, s.entries f = 0 → s'.entries f = 0) : Covered s' := by
  intro f _
  have hpos : 0 < s.entries f := by
    by_contra hnot
    have hnone := hzero f (by omega)
    omega
  have hle := h f hpos
  have hf' := hbal f
  omega

/-- A file that an entry names was named before. -/
lemma entries_eq_zero (hsource : ∀ k e, s'.fdTable k = some e →
    ∃ k₀ e₀, s.fdTable k₀ = some e₀ ∧ e₀.file = e.file) (f : UInt64) (h : s.entries f = 0) :
    s'.entries f = 0 := by
  refine holders_eq_zero.2 fun k _ hk => ?_
  obtain ⟨e, he, hfile⟩ := map_eq_some_iff.1 hk
  obtain ⟨k₀, e₀, he0, hfile0⟩ := hsource k e he
  refine holders_eq_zero.1 h k₀ (mem_keys k₀) ?_
  rw [he0, map_some, hfile0, hfile]

/-- References are enough for the entries along runs with backed entries. -/
lemma Covered.exec {op : Op n} (h : Covered s) (hbacked : Backed s op) :
    Covered (exec step s op) := by
  refine exec_invariant (fun s' hstep => ?_) h
  obtain ⟨⟨_, _⟩, hrun, rfl⟩ := map_eq_some_iff.1 hstep
  cases op with
  | alloc t filp caps _ =>
    cases act_done hrun with
    | failed => exact h
    | @alloc _ _ _ _ i _ hi =>
      intro f hf
      have hentries := entries_fill hi (rfl : Sys.fdTable { s with
        fdTable := update s.fdTable (t, i) (some ⟨capEntryMagic, filp, caps⟩) } = _) f
      show (Sys.entries _ f : ℤ) ≤ s.refcount f
      rw [hentries] at hf ⊢
      by_cases hfile : f = filp
      · have hmore : (s.entries filp : ℤ) < s.refcount filp := hbacked
        rw [if_pos hfile, hfile]
        omega
      · rw [if_neg hfile] at hf ⊢
        exact h f hf
  | _ =>
    -- the other operations are balanced, and name no new file
    refine h.of_balanced (h.conserved (by nofun) hrun) (entries_eq_zero fun k e he => ?_)
    obtain hold | ⟨-, k₀, e₀, he0, hfile, -⟩ := source_of_act (by nofun) hrun he
    · exact ⟨k, e, hold, rfl⟩
    · exact ⟨k₀, e₀, he0, hfile⟩

end

/-- **Capabilities are confined** along every run; and along those that start with as many
references to each file as entries that name it, and in which an entry is allocated only for a file
with a reference to spare, reference counts change as the numbers of entries do. -/
theorem confined_along (s : Sys n) (ops : List (Op n)) :
    Along step Confined s ops ∧
      (Covered s → Along step Backed s ops → Along step Balanced s ops) :=
  ⟨along_of_forall confined s ops, fun hcovered hbacked =>
    hbacked.mono (fun _ op h _ => h.balanced op) (fun _ _ h hop => h.exec hop) hcovered⟩

/-- Init and one other task, a child of init that holds an entry with the rights 15; the file at
`0x1000` has `count` references. -/
def twoTasks (count : ℤ) : Sys 2 where
  pid := fun t => (t : ℤ) + 1
  state := fun _ => .ready
  children := fun t => if t = 0 then [2] else []
  fdTable := fun k => if k.1 = 1 ∧ k.2.val = 0 then some ⟨capEntryMagic, 0x2000, 15⟩ else none
  refcount := fun f => if f = 0x1000 then count else if f = 0x2000 then 1 else 0

/-- Two entries are allocated for a file with one reference, and closed: the second time, there is
no reference left to drop. -/
theorem not_balanced_close :
    ¬ Along step Balanced (twoTasks 1)
      [.alloc 0 0x1000 1 true, .alloc 0 0x1000 1 true, .close 0 0, .close 0 1] := by
  rintro ⟨-, -, -, hclose, -⟩
  have hbal := hclose _ _ rfl 0x1000
  revert hbal
  decide

/-- Init derives an entry and passes it on to the child; reference counts are balanced. -/
theorem confined_along_twoTasks :
    Along step Balanced (twoTasks 1)
      [.alloc 0 0x1000 9 true, .derive 0 0 9 true, .send 0 1 2 true, .close 0 0] ∧
    (run step (twoTasks 1) [.alloc 0 0x1000 9 true, .derive 0 0 9 true, .send 0 1 2 true]).fdTable
      (1, ⟨1, by decide⟩) = some ⟨capEntryMagic, 0x1000, 9⟩ := by
  refine ⟨(confined_along (twoTasks 1) _).2 (fun f hf => ?_)
    ⟨?_, trivial, trivial, trivial, trivial⟩, by decide +kernel⟩
  · -- the file of the only entry
    have hfile : f = 0x2000 := by
      by_contra hne
      refine hf.ne' (holders_eq_zero.2 fun k _ hk => ?_)
      simp only [twoTasks] at hk
      split at hk
      · exact hne (some.inj hk).symm
      · cases hk
    subst hfile
    decide +kernel
  · show ((twoTasks 1).entries 0x1000 : ℤ) < (twoTasks 1).refcount 0x1000
    decide

end Aurora.Capability
