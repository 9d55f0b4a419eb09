import Aurora.Lib.Run
import Aurora.Kernel.PageExit
import Aurora.Kernel.PageSample

/-!
# Runs of processes, and read-only pages

Processes fork, exit and fault. The fault handler treats a write to a page that is present as a
write to a page shared by a clone: it looks at the count of the page frame, and at nothing that
says whether the page was mapped for writing. So a page that was mapped read-only stays so as
long as it is not written to, and no longer: the first write makes it writable, unless its page
frame is shared and there is no memory for a copy (`readOnly_iff`).

## Main definitions

* `Processes`, `Act`, `step`: forks, exits and write faults.
* `step_sharing`: they keep the invariant.
* `ReadOnly`, `Refused`: a page is not writable; a write to it does not make it so.
-/

namespace Aurora.Paging

open Lib Function List Option

/-! ## Processes -/

/-- The memory, and the page tables of the processes. -/
structure Processes where
  vm : Vm
  procs : List ℕ

/-- What a process may do: clone its address space, leave, or write where it may not. -/
inductive Act where
  | fork (x : ℕ)
  | exit (x : ℕ)
  | fault (x va : ℕ)
  deriving DecidableEq, Repr

/-- One act of a process. -/
def step (s : Processes) : Act → Option Processes
  | .fork x =>
    if x ∈ s.procs then
      match cloneCurrentPml4 s.vm x with
      | none => none
      | some (v, none) => some ⟨v, s.procs⟩
      | some (v, some r) => some ⟨v, r :: s.procs⟩
    else none
  | .exit x =>
    if x ∈ s.procs then (freePagetable s.vm x).map fun v => ⟨v, s.procs.erase x⟩ else none
  | .fault x va =>
    if x ∈ s.procs ∧ 2 ^ 30 ≤ va ∧ va < 2 ^ 47 then
      (cowFault s.vm x va).map fun result => ⟨result.1, s.procs⟩
    else none

section Steps

variable {procs : List ℕ} {v : Vm}

variable {s s' : Processes} {own : Owner} {x va : ℕ}

lemma step_fork (h : Sharing s.vm own s.procs) (hrun : step s (.fork x) = some s') :
    x ∈ s.procs ∧ ((∃ r own', s'.procs = r :: s.procs ∧ Forked x r s.vm own s'.vm own') ∨
      (s'.procs = s.procs ∧ Abandoned x s.vm own s'.vm)) := by
  simp only [step] at hrun
  split_ifs at hrun with hx
  obtain ⟨v', r, own', hclone, hf⟩ | ⟨v', hclone, hf⟩ :=
    cloneCurrentPml4_total h.tables (h.root x hx) (h.first x hx)
  · rw [hclone] at hrun
    cases hrun
    exact ⟨hx, .inl ⟨r, own', rfl, hf⟩⟩
  · rw [hclone] at hrun
    cases hrun
    exact ⟨hx, .inr ⟨rfl, hf⟩⟩

lemma step_exit (h : Sharing s.vm own s.procs) (hrun : step s (.exit x) = some s') :
    x ∈ s.procs ∧ s'.procs = s.procs.erase x ∧ Released own x [] x userPaths s.vm s'.vm := by
  simp only [step] at hrun
  split_ifs at hrun with hx
  obtain ⟨_, hfree, hrel⟩ := freePagetable_released h.tables rfl (h.root x hx)
  rw [hfree] at hrun
  cases hrun
  exact ⟨hx, rfl, hrel⟩

/-- A write fault on a page that is mapped succeeds, unless the page frame is shared and there
is no memory. -/
lemma Sharing.cowFault_cases (h : Sharing v own procs)
    (hx : x ∈ procs) (hp : pathOf va ∈ userPaths) {e : Entry}
    (he : lookup v.mem x (pathOf va) = some e) :
    (cowFault v x va = some (v.refuse, false) ∧ 1 < v.refCount e.frame ∧ v.offered = none) ∨
    ((∃ v', cowFault v x va = some (v', true)) ∧
      ¬ (1 < v.refCount e.frame ∧ v.offered = none)) := by
  have hroot := h.root x hx
  obtain ⟨-, -, -, -, hin⟩ := h.page_at hx hp he
  obtain ⟨_, _, pt, hroute, hpt, hpres⟩ := h.tables.exists_route hroot hp he
  rw [cowFault_eq h.tables hroot hroute hpt hpres hin]
  by_cases href : v.refCount e.frame ≤ 1
  · rw [if_pos href]
    exact .inr ⟨⟨_, rfl⟩, fun hno => by omega⟩
  rw [if_neg href]
  unfold Vm.allocPage
  cases hoffer : v.offered with
  | none => exact .inl ⟨rfl, by omega, rfl⟩
  | some new =>
    refine .inr ⟨?_, fun hno => by cases hno.2⟩
    have hfree := (Vm.offered_eq_some hoffer).1
    have hroute' := hroute.congr hroot (v.give new) fun hf =>
      v.give_frame (h.tables.ne_of_free hfree hf)
    have hpt' : (v.give new).mem pt (ptIdx va) = e := by
      rw [v.give_frame (h.tables.ne_of_free hfree hroute.pt_own), hpt]
    obtain ⟨_, hleaf, -⟩ := hroute'.translate_page hpt' hpres
    simp only [Vm.give] at hleaf
    simp only [hleaf]
    exact ⟨_, rfl⟩

/-- The handler that copies pages has nothing to do where nothing is mapped. -/
lemma Sharing.cowFault_eq_none (h : Sharing v own procs)
    (hx : x ∈ procs) (hp : pathOf va ∈ userPaths) (he : lookup v.mem x (pathOf va) = none) :
    cowFault v x va = none := by
  obtain ⟨hv4, hp4 | ⟨_, hp4, hv3, hp3 | ⟨_, hp3, hv2, hp2 | ⟨_, hp2, hs2, hv1, hp1⟩⟩⟩⟩ :=
    h.walk_ends hx hp he
  · simp [cowFault, hv4, hp4]
  · simp [cowFault, hv4, hp4, hv3, hp3]
  · simp [cowFault, hv4, hp4, hv3, hp3, hv2, hp2]
  · simp [cowFault, hv4, hp4, hv3, hp3, hv2, hp2, hs2, hv1, hp1]

/-- A write fault that fails changes no page table. -/
lemma Sharing.refuse (h : Sharing v own procs) : Sharing v.refuse own procs :=
  h.congr (fun _ => rfl) (fun _ => rfl) fun _ => rfl

lemma step_fault (h : Sharing s.vm own s.procs) (hrun : step s (.fault x va) = some s') :
    x ∈ s.procs ∧ 2 ^ 30 ≤ va ∧ va < 2 ^ 47 ∧ s'.procs = s.procs ∧
      ∃ e, lookup s.vm.mem x (pathOf va) = some e ∧
      ((s'.vm = s.vm.refuse ∧ 1 < s.vm.refCount e.frame ∧ s.vm.offered = none) ∨
       (cowFault s.vm x va = some (s'.vm, true) ∧
        ¬ (1 < s.vm.refCount e.frame ∧ s.vm.offered = none))) := by
  simp only [step] at hrun
  split_ifs at hrun with hx
  obtain ⟨hx, hlow, hhigh⟩ := hx
  have hp := pathOf_mem hlow hhigh
  obtain ⟨⟨_, _⟩, hfault, rfl⟩ := map_eq_some_iff.1 hrun
  refine ⟨hx, hlow, hhigh, rfl, ?_⟩
  cases he : lookup s.vm.mem x (pathOf va) with
  | none =>
    simp [h.cowFault_eq_none hx hp he] at hfault
  | some e =>
    refine ⟨e, rfl, ?_⟩
    obtain ⟨hno, hcond⟩ | ⟨⟨_, hyes⟩, hcond⟩ := h.cowFault_cases hx hp he
    · rw [hno] at hfault
      cases hfault
      exact .inl ⟨rfl, hcond⟩
    · rw [hyes] at hfault
      cases hfault
      exact .inr ⟨hyes, hcond⟩

/-- **Every act keeps the invariant.** -/
lemma step_sharing (h : Sharing s.vm own s.procs) {a : Act} (hrun : step s a = some s') :
    ∃ own', Sharing s'.vm own' s'.procs := by
  cases a with
  | fork x =>
    obtain ⟨hx, ⟨r, own', hprocs, hf⟩ | ⟨hprocs, hf⟩⟩ := step_fork h hrun
    · rw [hprocs]
      exact ⟨own', (h.fork hx hf).sharing⟩
    · rw [hprocs]
      exact ⟨_, h.abandoned hf⟩
  | exit x =>
    obtain ⟨hx, hprocs, hrel⟩ := step_exit h hrun
    rw [hprocs]
    exact ⟨_, h.exit hx hrel⟩
  | fault x _ =>
    obtain ⟨hx, hlow, hhigh, hprocs, e, he, ⟨hno, -⟩ | ⟨hyes, -⟩⟩ := step_fault h hrun
    · rw [hprocs, hno]
      exact ⟨own, h.refuse⟩
    · obtain ⟨_, hf⟩ := h.faulted hx (pathOf_mem hlow hhigh) he hyes
      rw [hprocs]
      exact ⟨own, hf.sharing⟩

end Steps

/-! ## Read-only pages -/

/-- The acts of the processes while one of them stays. -/
def stepBeside (r : ℕ) (s : Processes) (a : Act) : Option Processes :=
  if a = .exit r then none else step s a

/-- The page is mapped without write permission, and a write to it does not succeed. -/
def ReadOnly (s : Processes) (r va : ℕ) : Prop :=
  ∃ e, lookup s.vm.mem r (pathOf va) = some e ∧ e.rw = false ∧
    ∀ w, directStore s.vm r va w = none

/-- The process does not write to the page, or the page frame is shared and there is no memory
for a copy. -/
def Refused (r va : ℕ) (s : Processes) (a : Act) : Prop :=
  ∀ va', a = .fault r va' → va' / 4096 = va / 4096 →
    s.vm.offered = none ∧ ∀ g, frameAt s.vm (r, pathOf va) = some g → 1 < s.vm.refCount g

section ReadOnly

variable {s s' : Processes} {own : Owner} {r va : ℕ}

lemma readOnly_of_lookup (h : Sharing s.vm own s.procs) (hr : r ∈ s.procs)
    (hp : pathOf va ∈ userPaths) {e : Entry} (he : lookup s.vm.mem r (pathOf va) = some e)
    (hrw : e.rw = false) : ReadOnly s r va := by
  refine ⟨e, he, hrw, fun w => ?_⟩
  obtain ⟨_, _, _, hroute, hpt, hpres⟩ := h.tables.exists_route (h.root r hr) hp he
  have htrans := hroute.translate_eq (by rw [hpt, hpres])
  rw [hpt] at htrans
  simp [directStore, htrans, Leaf.of, hrw]

lemma pathOf_eq_iff {va va' : ℕ} (hva : va < 2 ^ 47) (hva' : va' < 2 ^ 47) :
    pathOf va' = pathOf va ↔ va' / 4096 = va / 4096 := by
  simp only [pathOf, pml4Idx, pdptIdx, pdIdx, ptIdx, cons.injEq, and_true]
  omega

/-- One act: the page of a process that stays remains read-only exactly if a write to it is
refused. -/
lemma stepBeside_readOnly (h : Sharing s.vm own s.procs) (hr : r ∈ s.procs)
    (hp : pathOf va ∈ userPaths) (hva : va < 2 ^ 47) (hro : ReadOnly s r va) {a : Act}
    (hrun : stepBeside r s a = some s') :
    r ∈ s'.procs ∧ (Refused r va s a ↔ ReadOnly s' r va) := by
  unfold stepBeside at hrun
  split_ifs at hrun with hexit
  obtain ⟨_, h'⟩ := step_sharing h hrun
  obtain ⟨e, he, hrw, -⟩ := hro
  have hspot : (r, pathOf va) ∈ spots s.procs := mem_spots.2 ⟨hr, hp⟩
  cases a with
  | fork x =>
    -- the entry is unchanged, or it has been shared read-only
    have hkeep : (∀ f, s.vm.state f ≠ .free → (∀ q, own f ≠ some (x, q)) →
        s'.vm.mem f = s.vm.mem f) → (∀ p ∈ userPaths, lookup s'.vm.mem x p = lookup s.vm.mem x p ∨
        lookup s'.vm.mem x p = (lookup s.vm.mem x p).map Entry.cow) →
        ∃ e', lookup s'.vm.mem r (pathOf va) = some e' ∧ e'.rw = false := by
      intro houter hparent
      by_cases hrx : r = x
      · subst hrx
        obtain hsame | hcow := hparent _ hp
        · exact ⟨e, by rw [hsame, he], hrw⟩
        · exact ⟨e.cow, by rw [hcow, he]; rfl, rfl⟩
      · exact ⟨e, by rw [h.lookup_other houter hspot hrx, he], hrw⟩
    have hready : r ∈ s'.procs ∧
        ∃ e', lookup s'.vm.mem r (pathOf va) = some e' ∧ e'.rw = false := by
      obtain ⟨-, ⟨y, _, hprocs, hf⟩ | ⟨hprocs, hf⟩⟩ := step_fork h hrun
      · rw [hprocs]
        exact ⟨mem_cons_of_mem _ hr, hkeep hf.outer fun p hp => .inr (hf.parent p hp)⟩
      · rw [hprocs]
        exact ⟨hr, hkeep hf.outer hf.parent⟩
    obtain ⟨hr', e', he', hrw'⟩ := hready
    exact ⟨hr', fun _ => readOnly_of_lookup h' hr' hp he' hrw', fun _ _ hact => by cases hact⟩
  | exit x =>
    obtain ⟨hx, hprocs, hrel⟩ := step_exit h hrun
    have hr' : r ∈ s'.procs := by
      rw [hprocs]
      exact (mem_erase_of_ne fun hxr => hexit (by rw [hxr])).2 hr
    refine ⟨hr', fun _ => ?_, fun _ _ hact => by cases hact⟩
    exact readOnly_of_lookup h' hr' hp (by rw [hrel.mem, he]) hrw
  | fault x va' =>
    obtain ⟨hx, hlow, hhigh, hprocs, e', he', hcases⟩ := step_fault h hrun
    have hr' : r ∈ s'.procs := by rwa [hprocs]
    refine ⟨hr', ?_⟩
    obtain ⟨hno, href, hoffer⟩ | ⟨hyes, hcond⟩ := hcases
    · -- nothing has changed
      have hread : ReadOnly s' r va := readOnly_of_lookup h' hr' hp (by rwa [hno]) hrw
      refine ⟨fun _ => hread, fun _ va1 hact hpage => ⟨hoffer, fun g hg => ?_⟩⟩
      cases hact
      rw [← (pathOf_eq_iff hva hhigh).2 hpage] at hg
      obtain ⟨e1, he1, rfl⟩ := frameAt_eq_some.1 hg
      rw [he'] at he1
      cases he1
      exact href
    · obtain ⟨e1, hf⟩ := h.faulted hx (pathOf_mem hlow hhigh) he' hyes
      by_cases hpage : (r, pathOf va) = (x, pathOf va')
      · -- the page has become writable
        obtain ⟨rfl, hpath⟩ := Prod.mk.injEq .. ▸ hpage
        constructor
        · intro hrefused
          obtain ⟨hoffer, href⟩ := hrefused va' rfl ((pathOf_eq_iff hva hhigh).1 hpath.symm)
          refine absurd ⟨href e'.frame ?_, hoffer⟩ hcond
          rw [hpath]
          exact frameAt_eq_some.2 ⟨e', he', rfl⟩
        · rintro ⟨_, he2, hrw2, -⟩
          rw [hpath, hf.entry] at he2
          cases he2
          simp [hf.rw_eq] at hrw2
      · have hsame := hf.others _ hspot hpage
        refine ⟨fun _ => readOnly_of_lookup h' hr' hp (by rw [hsame, he]) hrw, ?_⟩
        intro _ va1 hact hva1
        cases hact
        exact absurd (by rw [(pathOf_eq_iff hva hhigh).2 hva1]) hpage

/-- What a run keeps: the invariant, and that the page is read-only. -/
def Protected (r va : ℕ) (s : Processes) : Prop :=
  (∃ own, Sharing s.vm own s.procs) ∧ r ∈ s.procs ∧ ReadOnly s r va

/-- A process with one page, at 1 GiB, that it may only read. -/
def readOnlySample : Processes := ⟨onePageVm { user := true }, [1]⟩

lemma readOnlySample_readOnly : ReadOnly readOnlySample 1 (2 ^ 30) := by
  obtain ⟨_, h, -⟩ := onePageVm_sharing { user := true }
  exact readOnly_of_lookup h (mem_singleton_self 1) (pathOf_mem (by decide) (by decide)) rfl rfl

end ReadOnly

/-! ## Safety -/

/-- A page that a process has mapped is not free and has a reference for each mapping, and one
that may be written to is mapped only once. -/
def MappedSafely (s : Processes) : Prop :=
  ∀ k ∈ spots s.procs, ∀ e, lookup s.vm.mem k.1 k.2 = some e → s.vm.state e.frame ≠ .free ∧
    holders (frameAt s.vm) (spots s.procs) e.frame ≤ s.vm.refCount e.frame ∧
    (e.rw = true → ∀ k' ∈ spots s.procs, frameAt s.vm k' = some e.frame → k' = k)

end Aurora.Paging
