import Aurora.Kernel.PageRuns
import Aurora.Kernel.PageUnmap

/-!
# Conservation of references to page frames

Every page frame that user mode has should have as many references as there are entries that
map it, and should be returned when the last of them goes. Forks, exits and write faults keep
this. Mapping a page does not: the allocator hands the page frame out with one reference, and
`map_page` adds another. Unmapping a page does not if the page frame is mapped elsewhere,
because the caller frees it whatever its count.

## Main definitions

* `Ledger`, `MemAct`, `ledgerStep`: processes with the page frames that user mode has.
* `Conserved`: references are conserved.
* `Balanced`: an act that conserves them.
* `conserved_iff`: they are conserved exactly if all acts do.
-/

namespace Aurora.Paging

open Lib Function List Option Vm

/-! ## Acts -/

/-- What is done to the memory of processes: the acts of the processes, the allocation of a page
and its mapping, and the removal of a mapping and the release of its page. -/
inductive MemAct where
  | act (a : Act)
  | map (x va : ℕ) (flags : Entry)
  | unmap (x va : ℕ)
  deriving DecidableEq, Repr

/-- One act. A caller of `map_page` frees the page if it cannot be mapped; a caller of
`unmap_page` frees the page that was mapped. -/
def memStep (s : Processes) : MemAct → Option Processes
  | .act a => step s a
  | .map x va flags =>
    if x ∈ s.procs ∧ 2 ^ 30 ≤ va ∧ va < 2 ^ 47 then
      match s.vm.allocPage with
      | (v, none) => some ⟨v, s.procs⟩
      | (v, some g) =>
        match mapPage v x va g flags with
        | none => none
        | some (v, true) => some ⟨v, s.procs⟩
        | some (v, false) => some ⟨v.freePage g, s.procs⟩
    else none
  | .unmap x va =>
    if x ∈ s.procs ∧ 2 ^ 30 ≤ va ∧ va < 2 ^ 47 then
      (unmapPage s.vm x va).map fun v =>
        match frameAt s.vm (x, pathOf va) with
        | none => ⟨v, s.procs⟩
        | some g => ⟨v.freePage g, s.procs⟩
    else none

/-- How many entries of the processes map a page frame. -/
def Processes.mappings (s : Processes) (g : ℕ) : ℕ := holders (frameAt s.vm) (spots s.procs) g

/-- Processes, and the page frames that user mode has got and that have not been returned. -/
structure Ledger where
  sys : Processes
  user : ℕ → Bool

/-- One act: user mode has got what is mapped now, and has returned what is free. -/
def ledgerStep (s : Ledger) (a : MemAct) : Option Ledger :=
  (memStep s.sys a).map fun p =>
    ⟨p, fun g => (s.user g || decide (p.mappings g ≠ 0)) && decide (p.vm.state g ≠ .free)⟩

/-- References are conserved: user mode has exactly the page frames that are mapped; they are
allocated, with as many references as mappings; and without processes there are none. -/
structure Conserved (s : Ledger) : Prop where
  mapped : ∀ g, s.user g = true ↔ s.sys.mappings g ≠ 0
  counted : ∀ g, s.user g = true →
    s.sys.vm.state g = .used ∧ s.sys.vm.refCount g = s.sys.mappings g
  gone : s.sys.procs = [] → ∀ g, s.user g = false

/-- The act conserves references: there is no memory for the page and its tables, or the mapping
that is removed is the only one of its page frame. -/
def Balanced (s : Ledger) : MemAct → Prop
  | .act _ => True
  | .map x va _ => x ∈ s.sys.procs → 2 ^ 30 ≤ va → va < 2 ^ 47 →
    s.sys.vm.grants (missingTables s.sys.vm x va + 1) = false
  | .unmap x va => x ∈ s.sys.procs → 2 ^ 30 ≤ va → va < 2 ^ 47 →
    ∀ g, frameAt s.sys.vm (x, pathOf va) = some g → s.sys.mappings g = 1

/-! ## What an act has to keep -/

/-- Mapped page frames are allocated, with as many references as mappings. -/
def Exact (s : Processes) : Prop :=
  ∀ g, s.mappings g ≠ 0 → s.vm.state g = .used ∧ s.vm.refCount g = s.mappings g

/-- The first PDPT of every process has the entry of the identity mapping. -/
def LowMapped (s : Processes) : Prop := ∀ x ∈ s.procs, s.vm.mem (s.vm.mem x 0).frame 0 ≠ {}

/-- After an act the references are exact, and what has lost its last mapping is free. -/
def Settled (s s' : Processes) : Prop :=
  Exact s' ∧ ∀ g, s.mappings g ≠ 0 → s'.mappings g = 0 → s'.vm.state g = .free

lemma mappings_nil {s : Processes} (h : s.procs = []) (g : ℕ) : s.mappings g = 0 := by
  rw [Processes.mappings, h]
  rfl

lemma Conserved.exact {s : Ledger} (h : Conserved s) : Exact s.sys := fun g hg =>
  h.counted g ((h.mapped g).2 hg)

/-- Conservation is kept exactly if the act is settled. -/
lemma conserved_iff_settled {s s' : Ledger} {a : MemAct} (h : Conserved s)
    (hrun : ledgerStep s a = some s') : Conserved s' ↔ Settled s.sys s'.sys := by
  obtain ⟨p, -, rfl⟩ := map_eq_some_iff.1 hrun
  constructor
  · intro h'
    refine ⟨h'.exact, fun g hg hnone => ?_⟩
    by_contra hbusy
    have huser := (h.mapped g).2 hg
    refine (h'.mapped g).1 ?_ hnone
    simp [huser, hbusy]
  · rintro ⟨hexact, hfreed⟩
    have hmapped : ∀ g, ((s.user g || decide (p.mappings g ≠ 0)) &&
        decide (p.vm.state g ≠ .free)) = true ↔ p.mappings g ≠ 0 := by
      intro g
      simp only [Bool.and_eq_true, Bool.or_eq_true, decide_eq_true_eq]
      constructor
      · rintro ⟨huser | hmap, hbusy⟩
        · intro hnone
          exact hbusy (hfreed g ((h.mapped g).1 huser) hnone)
        · exact hmap
      · intro hmap
        refine ⟨.inr hmap, ?_⟩
        rw [(hexact g hmap).1]
        decide
    refine ⟨hmapped, fun g hg => hexact g ((hmapped g).1 hg), fun hnil g => ?_⟩
    by_contra huser
    exact (hmapped g).1 (by simpa using huser) (mappings_nil hnil g)

/-- Nothing has changed for the page frames that are mapped. -/
lemma Settled.of_same {s s' : Processes} (h : Exact s) (hmap : ∀ g, s'.mappings g = s.mappings g)
    (hdesc : ∀ g, s.mappings g ≠ 0 → s'.vm.desc g = s.vm.desc g) : Settled s s' := by
  refine ⟨fun g hg => ?_, fun g hg hnone => absurd (by rw [← hmap, hnone]) hg⟩
  rw [hmap] at hg
  obtain ⟨hstate, hcount⟩ := desc_eq_iff.1 (hdesc g hg)
  rw [hstate, hcount, hmap]
  exact h g hg

lemma mappings_ne_zero {s : Processes} {g : ℕ} :
    s.mappings g ≠ 0 ↔ ∃ k ∈ spots s.procs, frameAt s.vm k = some g := by
  rw [Processes.mappings, Ne, holders_eq_zero]
  push Not
  rfl

/-! ## The acts of processes -/

section Acts

variable {s s' : Processes} {own : Owner} {x va : ℕ}

/-- The entry of the identity mapping stays where the tables above the last level do. -/
lemma LowMapped.of_stem (hlow : LowMapped s) (h : Sharing s.vm own s.procs) {v' : Vm}
    (hstem : ∀ {f z q}, own f = some (z, q) → q.length < 3 → v'.mem f = s.vm.mem f) {y : ℕ}
    (hy : y ∈ s.procs) : v'.mem (v'.mem y 0).frame 0 ≠ {} := by
  rw [hstem (h.root y hy) (by decide),
    hstem (first_own h.tables (h.root y hy) (h.first y hy)) (by decide)]
  exact hlow y hy

section

variable (h : Sharing s.vm own s.procs) (hlow : LowMapped s) (hex : Exact s)

include h hlow hex

lemma fork_settled (hrun : step s (.fork x) = some s') : Settled s s' ∧ LowMapped s' := by
  obtain ⟨hx, ⟨r, _, hprocs, hf⟩ | ⟨hprocs, hf⟩⟩ := step_fork h hrun
  · have hsp := h.fork hx hf
    -- the child maps what the parent maps, and each mapping has been counted
    have hmap : ∀ g, s'.mappings g = uses s.vm.mem x userPaths g + s.mappings g := by
      intro g
      rw [Processes.mappings, hprocs, hsp.held, Processes.mappings]
    have hmapped : ∀ {g}, s'.mappings g ≠ 0 → s.mappings g ≠ 0 := by
      intro g hg
      rw [mappings_ne_zero, hprocs] at hg
      obtain ⟨k, hk, hg⟩ := hg
      exact mappings_ne_zero.2 (hsp.frames k hk g hg)
    refine ⟨⟨fun g hg => ?_, fun g hg hnone => ?_⟩, ?_⟩
    · obtain ⟨hused, hcount⟩ := hex g (hmapped hg)
      obtain ⟨k, hk, hat⟩ := mappings_ne_zero.1 (hmapped hg)
      have hkept := hf.kept g (h.data hk hat).2
      rw [hf.state g hkept, hf.count g hkept (h.managed k hk g hat), hmap, hused, hcount]
      exact ⟨rfl, Nat.add_comm ..⟩
    · have := hmap g
      omega
    · intro y hy
      rw [hprocs] at hy
      obtain rfl | hy := mem_cons.1 hy
      · rw [hf.low]
        exact hlow x hx
      · exact hlow.of_stem h (fun hz hq => h.stem_of_outer hf.outer hf.stem hz hq) hy
  · have hat : ∀ k ∈ spots s.procs, frameAt s'.vm k = frameAt s.vm k := by
      intro k hk
      by_cases hkx : k.1 = x
      · exact frameAt_congr (hkx ▸ hf.parent k.2 (mem_spots.1 hk).2)
      · exact frameAt_congr (.inl (h.lookup_other hf.outer hk hkx))
    refine ⟨.of_same hex (fun g => ?_) fun g hg => ?_, ?_⟩
    · rw [Processes.mappings, hprocs]
      exact holders_congr fun k hk => by rw [hat k hk]
    · obtain ⟨k, hk, hgk⟩ := mappings_ne_zero.1 hg
      obtain ⟨hnone, hbusy⟩ := h.data hk hgk
      refine hf.data g hnone hbusy (h.managed k hk g hgk) ?_
      rwa [(hex g hg).2]
    · intro y hy
      rw [hprocs] at hy
      exact hlow.of_stem h (fun hz hq => h.stem_of_outer hf.outer hf.stem hz hq) hy

lemma exit_settled (hrun : step s (.exit x) = some s') : Settled s s' ∧ LowMapped s' := by
  obtain ⟨hx, hprocs, hrel⟩ := step_exit h hrun
  set n := uses s.vm.mem x userPaths with hn
  have hmap : ∀ g, s.mappings g = n g + s'.mappings g := by
    intro g
    unfold Processes.mappings
    rw [hprocs, holders_erase s.vm hx g, hn]
    have hsame : holders (frameAt s'.vm) (spots (s.procs.erase x)) g =
        holders (frameAt s.vm) (spots (s.procs.erase x)) g :=
      holders_congr fun k _ => by rw [frameAt, hrel.mem, frameAt]
    rw [hsame]
  have hdesc : ∀ g, s.mappings g ≠ 0 →
      s'.vm.desc g = dropOne^[n g] (.used, n g + s'.mappings g) := by
    intro g hg
    obtain ⟨k, hk, hat⟩ := mappings_ne_zero.1 hg
    obtain ⟨hused, hcount⟩ := hex g hg
    rw [hrel.data g (h.data hk hat).1, s.vm.desc_eq, hused, hcount, hmap g, hn]
  refine ⟨⟨fun g hg => ?_, fun g hg hnone => ?_⟩, ?_⟩
  · have hbefore : s.mappings g ≠ 0 := by
      have := hmap g
      omega
    have hd := hdesc g hbefore
    rw [dropOne_iterate_of_lt (by omega), if_neg (by decide)] at hd
    obtain ⟨hstate, hcount⟩ := desc_eq_iff.1 hd
    exact ⟨hstate, by omega⟩
  · have hd := hdesc g hg
    have hpos : 0 < n g := by
      have := hmap g
      omega
    rw [hnone, Nat.add_zero, dropOne_iterate_self hpos] at hd
    exact (desc_eq_iff.1 hd).1
  · intro y hy
    rw [hprocs] at hy
    rw [hrel.mem]
    exact hlow y (erase_subset hy)

lemma fault_settled (hrun : step s (.fault x va) = some s') : Settled s s' ∧ LowMapped s' := by
  obtain ⟨hx, hlo, hhi, hprocs, e, he, ⟨hno, -⟩ | ⟨hyes, -⟩⟩ := step_fault h hrun
  · refine ⟨.of_same hex (fun g => ?_) fun g _ => by rw [hno]; rfl, ?_⟩
    · rw [Processes.mappings, hprocs, hno]
      rfl
    · intro y hy
      rw [hprocs] at hy
      rw [hno]
      exact hlow y hy
  · obtain ⟨_, hf⟩ := h.faulted hx (pathOf_mem hlo hhi) he hyes
    have hmap : ∀ g, s'.mappings g = holders (frameAt s'.vm) (spots s.procs) g := by
      intro g
      rw [Processes.mappings, hprocs]
    refine ⟨⟨fun g hg => ?_, fun g hg hnone => ?_⟩, ?_⟩
    · obtain ⟨k, hk, hat⟩ := mappings_ne_zero.1 hg
      rw [hprocs] at hk
      rw [hmap]
      by_cases hfree : s.vm.state g = .free
      · exact hf.fresh k hk g hat hfree
      · have hbefore : s.mappings g ≠ 0 := mappings_ne_zero.2 ⟨k, hk, hf.frames k hk g hat hfree⟩
        obtain ⟨hused, hcount⟩ := hex g hbefore
        obtain ⟨hbal, -⟩ := hf.count hfree
        rw [hf.state hfree]
        refine ⟨hused, ?_⟩
        unfold Processes.mappings at hcount
        omega
    · -- a page frame that has lost a mapping had another one
      exfalso
      obtain ⟨k, hk, hat⟩ := mappings_ne_zero.1 hg
      obtain ⟨-, hcount⟩ := hex g hg
      obtain ⟨hbal, hleft⟩ := hf.count (h.data hk hat).2
      have := hleft (by rwa [hcount])
      rw [hmap] at hnone
      unfold Processes.mappings at hcount
      omega
    · intro y hy
      rw [hprocs] at hy
      exact hlow.of_stem h hf.stem hy

end

end Acts

/-! ## Mapping -/

section Map

variable {s s' : Processes} {own : Owner} {x va : ℕ}

/-- How many tables are missing only depends on the tables. -/
lemma Tables.missing_congr {v : Vm} (h : Tables v own) {m : Memory} {n f r : ℕ} {q p : List ℕ}
    (hf : own f = some (r, q)) (hn : n + q.length ≤ 3) (hp : p ∈ pathsFrom n q)
    (hm : ∀ {g y}, own g = some y → m g = v.mem g) : missing m f p = missing v.mem f p := by
  induction n generalizing f q p with
  | zero =>
    rw [mem_singleton.1 hp]
    rfl
  | succ n ih =>
    obtain ⟨i, hi, _, hp', rfl⟩ := mem_pathsFrom_succ.1 hp
    simp only [missing]
    rw [hm hf]
    cases ht : (v.mem f i).table with
    | none => rfl
    | some t =>
      have hown := h.child hf (by omega) hi ht
      exact ih hown (by rw [length_append, length_singleton]; omega) hp'

/-- The entry of the identity mapping stays when tables are added. -/
lemma Extended.low {procs : List ℕ} {v v' : Vm} {own' : Owner}
    (hext : Extended x procs v own v' own') (h : Sharing v own procs) {y : ℕ} (hy : y ∈ procs) :
    v'.mem (v'.mem y 0).frame 0 = v.mem (v.mem y 0).frame 0 := by
  have hroot := h.root y hy
  have hpdpt := first_own h.tables hroot (h.first y hy)
  have hfirst : v'.mem y 0 = v.mem y 0 := by
    obtain hsame | ⟨-, habs, -⟩ := hext.word y 0 (h.tables.busy hroot)
    · exact hsame
    · simp [h.first y hy] at habs
  rw [hfirst]
  obtain hsame | ⟨⟨q, hq, -, hprivate⟩, -⟩ := hext.word _ 0 (h.tables.busy hpdpt)
  · exact hsame
  · cases hpdpt.symm.trans hq
    exact absurd hprivate zero_not_mem

/-- **Mapping a page** conserves references exactly if there is no memory for it. -/
lemma map_settled {flags : Entry} (h : Sharing s.vm own s.procs) (hlow : LowMapped s)
    (hex : Exact s) (hrun : memStep s (.map x va flags) = some s') :
    (x ∈ s.procs ∧ 2 ^ 30 ≤ va ∧ va < 2 ^ 47) ∧ (s.vm.grants (missingTables s.vm x va + 1) = false →
        Settled s s' ∧ LowMapped s' ∧ ∃ own', Sharing s'.vm own' s'.procs) ∧
      (s.vm.grants (missingTables s.vm x va + 1) = true → ¬ Exact s') := by
  simp only [memStep] at hrun
  split_ifs at hrun with hcond
  refine ⟨hcond, ?_⟩
  obtain ⟨hx, hlo, hhi⟩ := hcond
  have hp := pathOf_mem hlo hhi
  rw [s.vm.allocPage_eq] at hrun
  cases hoffer : s.vm.offered with
  | none =>
    rw [hoffer] at hrun
    obtain rfl : (⟨s.vm.refuse, s.procs⟩ : Processes) = s' := by simpa using hrun
    have hgrants : s.vm.grants (missingTables s.vm x va + 1) = false := by
      simp only [grants, hoffer]
    rw [hgrants]
    exact ⟨fun _ => ⟨.of_same hex (fun _ => rfl) fun _ _ => rfl, hlow, own, h.refuse⟩, by simp⟩
  | some g =>
    simp only [hoffer] at hrun
    obtain ⟨hfree, -⟩ := offered_eq_some hoffer
    set v1 := s.vm.give g with hv1
    have hs1 : Sharing v1 own s.procs := h.give hfree
    have hne : ∀ {f}, s.vm.state f ≠ .free → f ≠ g := by
      rintro f hf rfl
      exact hf hfree
    have hmem1 : ∀ {f y}, own f = some y → v1.mem f = s.vm.mem f := fun hf => by
      rw [hv1, give_frame _ (hne (h.tables.busy hf))]
    have hused : v1.state g = .used := by rw [hv1, give_used]
    have hown := h.tables.own_eq_none hfree
    have hgrants : s.vm.grants (missingTables s.vm x va + 1) =
        v1.grants (missingTables v1 x va) := by
      obtain ⟨h4, h3, h2, -⟩ := pathOf_indices hp
      have hpath : [pml4Idx va, pdptIdx va, pdIdx va] ∈ pathsFrom 3 [] :=
        pathsFrom_snoc (pathsFrom_snoc (pathsFrom_snoc (n := 0) (p := [])
          (mem_singleton_self _) h4) h3) h2
      have hsame : missingTables v1 x va = missingTables s.vm x va :=
        h.tables.missing_congr (h.root x hx) (by decide) hpath hmem1
      rw [hsame, hv1]
      simp only [grants, hoffer]
    rw [hgrants]
    obtain ⟨v', own', hext, ⟨hno, hmapno⟩ | ⟨hyes, _, _, pt, hroute, hmapyes⟩⟩ :=
      mapPage_cases hs1 hx hp g flags
    · -- the page is freed again
      rw [hmapno] at hrun
      obtain rfl : (⟨v'.freePage g, s.procs⟩ : Processes) = s' := by simpa using hrun
      rw [hno]
      refine ⟨fun _ => ⟨.of_same hex (fun f => ?_) fun f hf => ?_, fun y hy => ?_, ?_⟩, by simp⟩
      · refine holders_congr fun k hk => ?_
        simp only [frameAt, freePage_mem]
        rw [hext.lookups k hk, h.lookup_give hfree hk]
      · obtain ⟨k, hk, hat⟩ := mappings_ne_zero.1 hf
        have hfg := hne (h.data hk hat).2
        have hbusy1 : v1.state f ≠ .free := by
          rw [hv1, give_state _ hfg]
          exact (h.data hk hat).2
        rw [v'.freePage_desc hfg, hext.desc f hbusy1, hv1, desc_eq, give_state _ hfg,
          give_refCount _ hfg, desc_eq]
      · rw [freePage_mem, hext.low hs1 hy, hmem1 (h.root y hy),
          hmem1 (first_own h.tables (h.root y hy) (h.first y hy))]
        exact hlow y hy
      · refine ⟨_, hext.sharing.freePage ?_ ?_⟩
        · rw [hext.kept g (by rw [hused]; decide), hown]
        · refine holders_eq_zero.2 fun k hk hat => ?_
          rw [frameAt, hext.lookups k hk, h.lookup_give hfree hk] at hat
          exact (h.data hk hat).2 hfree
    · -- the page has two references and one mapping
      rw [hmapyes] at hrun
      obtain rfl : (⟨setPte v' pt (ptIdx va) g flags, s.procs⟩ : Processes) = s' := by
        simpa using hrun
      rw [hyes]
      refine ⟨by simp, fun _ hexact => ?_⟩
      have hused1 : v1.state g ≠ .free := by
        rw [hused]
        decide
      have hdesc := desc_eq_iff.1 (hext.desc g hused1)
      rw [hv1] at hext
      have hunmapped := hext.unmapped h hfree
      obtain ⟨_, hm⟩ := hext.setPte h hfree hx hp hroute flags
      have hcount : (setPte v' pt (ptIdx va) g flags).refCount g = 2 := by
        rw [hm.count, hdesc.2, hv1]
        show update s.vm.refCount g 1 g + 1 = 2
        simp
      have hspot : (x, pathOf va) ∈ spots s.procs := mem_spots.2 ⟨hx, hp⟩
      have hentry : frameAt (setPte v' pt (ptIdx va) g flags) (x, pathOf va) = some g :=
        frameAt_eq_some.2 ⟨_, hm.entry, rfl⟩
      have hsole : ∀ k ∈ spots s.procs, frameAt (setPte v' pt (ptIdx va) g flags) k = some g →
          k = (x, pathOf va) := by
        intro k hk hat
        by_contra hkne
        rw [frameAt, hm.others k hk hkne] at hat
        exact hunmapped k hk hat
      have hle : holders (frameAt (setPte v' pt (ptIdx va) g flags)) (spots s.procs) g ≤ 1 :=
        holders_le_one (nodup_spots h.nodup) fun k hk k' hk' hat hat' => by
          rw [hsole k hk hat, hsole k' hk' hat']
      have htwo := (hexact g (mappings_ne_zero.2 ⟨_, hspot, hentry⟩)).2
      have hmap : Processes.mappings ⟨setPte v' pt (ptIdx va) g flags, s.procs⟩ g ≤ 1 := hle
      rw [hcount] at htwo
      omega

end Map

/-! ## Unmapping -/

section UnmapAct

variable {s s' : Processes} {own : Owner} {x va : ℕ}

/-- **Unmapping a page** conserves references exactly if it was the only mapping. -/
lemma unmap_settled (h : Sharing s.vm own s.procs) (hlow : LowMapped s) (hex : Exact s)
    (hrun : memStep s (.unmap x va) = some s') :
    (x ∈ s.procs ∧ 2 ^ 30 ≤ va ∧ va < 2 ^ 47) ∧
      ((∀ g, frameAt s.vm (x, pathOf va) = some g → s.mappings g = 1) →
        Settled s s' ∧ LowMapped s' ∧ ∃ own', Sharing s'.vm own' s'.procs) ∧
      (Exact s' → ∀ g, frameAt s.vm (x, pathOf va) = some g → s.mappings g = 1) := by
  simp only [memStep] at hrun
  split_ifs at hrun with hcond
  refine ⟨hcond, ?_⟩
  obtain ⟨hx, hlo, hhi⟩ := hcond
  have hp := pathOf_mem hlo hhi
  have hspot : (x, pathOf va) ∈ spots s.procs := mem_spots.2 ⟨hx, hp⟩
  cases he : lookup s.vm.mem x (pathOf va) with
  | none =>
    have hat : frameAt s.vm (x, pathOf va) = none := by
      rw [frameAt, he]
      rfl
    rw [unmapPage_eq_self h hx hp he, hat] at hrun
    obtain rfl : s = s' := by simpa using hrun
    exact ⟨fun _ => ⟨.of_same hex (fun _ => rfl) fun _ _ => rfl, hlow, own, h⟩,
      fun _ g hg => by rw [hat] at hg; cases hg⟩
  | some e =>
    obtain ⟨hclean, hrooted⟩ := h.clean
    have hat : frameAt s.vm (x, pathOf va) = some e.frame := frameAt_eq_some.2 ⟨e, he, rfl⟩
    obtain ⟨v', own', hunmap, hc⟩ := unmapPage_cleared hclean hrooted hx hp (hlow x hx) he
    rw [hunmap, hat] at hrun
    obtain rfl : (⟨v'.freePage e.frame, s.procs⟩ : Processes) = s' := by simpa using hrun
    have hmapped : s.mappings e.frame ≠ 0 := mappings_ne_zero.2 ⟨_, hspot, hat⟩
    -- one mapping is gone
    have hmap : ∀ g, Processes.mappings ⟨v'.freePage e.frame, s.procs⟩ g +
        (if e.frame = g then 1 else 0) = s.mappings g := by
      intro g
      have hchange := holders_update (f := frameAt s.vm) (x := g) (nodup_spots h.nodup) hspot none
      have hsame : holders (frameAt (v'.freePage e.frame)) (spots s.procs) g =
          holders (update (frameAt s.vm) (x, pathOf va) none) (spots s.procs) g := by
        refine holders_congr fun k hk => ?_
        simp only [frameAt, freePage_mem]
        by_cases hkne : k = (x, pathOf va)
        · rw [hkne, hc.entry, update_self]
          rfl
        · rw [hc.lookups k hk hkne, update_of_ne hkne]
          rfl
      simp only [hat, some.injEq, reduceCtorEq, if_false, Nat.add_zero] at hchange
      rwa [Processes.mappings, hsame]
    have hdata : ∀ {g}, s.mappings g ≠ 0 → v'.desc g = s.vm.desc g ∧ own' g = none := by
      intro g hg
      obtain ⟨k, hk, hgk⟩ := mappings_ne_zero.1 hg
      have hnone := (hclean.data hk hgk).1
      obtain ⟨hown, hdesc⟩ := hc.others (f := g) fun q => by simp [hnone]
      exact ⟨hdesc, by rw [hown, hnone]⟩
    have hfreed : (v'.freePage e.frame).state e.frame = .free := by
      have hused := (desc_eq_iff.1 (hdata hmapped).1).1
      rw [(hex _ hmapped).1] at hused
      rw [freePage, if_pos hused]
      exact update_self ..
    constructor
    · intro hone
      have hone := hone _ hat
      have hzero := hmap e.frame
      rw [if_pos rfl, hone] at hzero
      refine ⟨⟨fun g hg => ?_, fun g hg hnone => ?_⟩, fun y hy => ?_, ?_⟩
      · have hge : e.frame ≠ g := by
          rintro rfl
          omega
        have hbefore := hmap g
        rw [if_neg hge, Nat.add_zero] at hbefore
        rw [hbefore] at hg ⊢
        obtain ⟨hstate, hcount⟩ := desc_eq_iff.1
          ((v'.freePage_desc (Ne.symm hge)).trans (hdata hg).1)
        exact ⟨hstate.trans (hex g hg).1, hcount.trans (hex g hg).2⟩
      · by_cases hge : e.frame = g
        · rwa [← hge]
        · have hbefore := hmap g
          rw [if_neg hge, hnone] at hbefore
          exact absurd hbefore.symm hg
      · have hroot := hclean.root y hy
        have hpdpt := first_own hclean.tables hroot (hclean.first y hy)
        have hfirst : v'.mem y 0 = s.vm.mem y 0 := by
          obtain hsame | ⟨-, q, hq, -, h0⟩ := hc.word y 0
          · exact hsame
          · cases hroot.symm.trans hq
            exact absurd rfl (h0 rfl)
        rw [freePage_mem, hfirst]
        obtain hsame | ⟨-, q, hq, hprivate, -⟩ := hc.word (s.vm.mem y 0).frame 0
        · rw [hsame]
          exact hlow y hy
        · cases hpdpt.symm.trans hq
          exact absurd hprivate zero_not_mem
      · refine ⟨_, hc.sharing.freePage (hdata hmapped).2 ?_⟩
        have hsame : holders (frameAt (v'.freePage e.frame)) (spots s.procs) e.frame =
            holders (frameAt v') (spots s.procs) e.frame :=
          holders_congr fun k _ => by simp only [frameAt, freePage_mem]
        rw [← hsame]
        exact Nat.succ.inj hzero
    · intro hexact g hg
      rw [hat] at hg
      cases hg
      have hbefore := hmap e.frame
      rw [if_pos rfl] at hbefore
      by_contra hmany
      -- a page frame that is still mapped has been freed
      have hused := (hexact e.frame (by omega)).1
      simp [hfreed] at hused

end UnmapAct

/-! ## Runs -/

section Runs

variable {s s' : Ledger} {own : Owner} {a : MemAct}

/-- What a run keeps. -/
def Sound (s : Ledger) : Prop :=
  (∃ own, Sharing s.sys.vm own s.sys.procs) ∧ LowMapped s.sys ∧ Conserved s

/-- One act: references are conserved exactly if it is balanced, and then so is the rest of what
a run keeps. -/
lemma ledgerStep_settled (h : Sound s) (hrun : ledgerStep s a = some s') :
    (Balanced s a → Sound s') ∧ (Conserved s' → Balanced s a) := by
  obtain ⟨⟨_, hsh⟩, hlow, hcons⟩ := h
  have hiff := conserved_iff_settled hcons hrun
  obtain ⟨p, hstep, rfl⟩ := map_eq_some_iff.1 hrun
  have hex := hcons.exact
  cases a with
  | act a =>
    have hkeep : Settled s.sys p ∧ LowMapped p := by
      cases a with
      | fork x => exact fork_settled hsh hlow hex hstep
      | exit x => exact exit_settled hsh hlow hex hstep
      | fault x va => exact fault_settled hsh hlow hex hstep
    exact ⟨fun _ => ⟨step_sharing hsh hstep, hkeep.2, hiff.2 hkeep.1⟩, fun _ => trivial⟩
  | map x va _ =>
    obtain ⟨⟨hx, hlo, hhi⟩, hno, hyes⟩ := map_settled hsh hlow hex hstep
    refine ⟨fun hbal => ?_, fun hcons' _ _ _ => ?_⟩
    · obtain ⟨hset, hlow', hsh'⟩ := hno (hbal hx hlo hhi)
      exact ⟨hsh', hlow', hiff.2 hset⟩
    · by_contra hgrants
      exact hyes (by simpa using hgrants) hcons'.exact
  | unmap x va =>
    obtain ⟨⟨hx, hlo, hhi⟩, hsole, hneed⟩ := unmap_settled hsh hlow hex hstep
    refine ⟨fun hbal => ?_, fun hcons' _ _ _ => hneed hcons'.exact⟩
    obtain ⟨hset, hlow', hsh'⟩ := hsole (hbal hx hlo hhi)
    exact ⟨hsh', hlow', hiff.2 hset⟩

/-- An act that does not return leaves a run where it is, and is balanced. -/
lemma balanced_of_none (h : Sound s) (hrun : ledgerStep s a = none) : Balanced s a := by
  obtain ⟨⟨_, hsh⟩, hlow, -⟩ := h
  have hnone : memStep s.sys a = none := by
    simpa [ledgerStep] using hrun
  cases a with
  | act a => trivial
  | map x va flags =>
    intro hx hlo hhi
    have hp := pathOf_mem hlo hhi
    simp only [memStep, hx, hlo, hhi, and_self, if_true] at hnone
    rw [allocPage_eq] at hnone
    cases hoffer : s.sys.vm.offered with
    | none => simp only [grants, hoffer]
    | some g =>
      rw [hoffer] at hnone
      obtain ⟨v', own', -, ⟨-, hmap⟩ | ⟨-, _, _, _, -, hmap⟩⟩ :=
        mapPage_cases (hsh.give (offered_eq_some hoffer).1) hx hp g flags
      · simp only [hmap] at hnone
        cases hnone
      · simp only [hmap] at hnone
        cases hnone
  | unmap x va =>
    intro hx hlo hhi g hg
    have hp := pathOf_mem hlo hhi
    obtain ⟨e, he, -⟩ := frameAt_eq_some.1 hg
    obtain ⟨hclean, hrooted⟩ := hsh.clean
    obtain ⟨v', own', hunmap, -⟩ := unmapPage_cleared hclean hrooted hx hp (hlow x hx) he
    simp only [memStep, hx, hlo, hhi, and_self, if_true, hunmap] at hnone
    cases hnone

/-- Only a balanced act conserves references. -/
lemma balanced_of_conserved (h : Sound s) (hafter : Conserved (exec ledgerStep s a)) :
    Balanced s a := by
  unfold exec at hafter
  cases hrun : ledgerStep s a with
  | none => exact balanced_of_none h hrun
  | some _ =>
    rw [hrun] at hafter
    exact (ledgerStep_settled h hrun).2 hafter

/-- **References are conserved** all along a run exactly if every act of it is balanced. -/
theorem conserved_iff (s : Ledger) (own : Owner) (h : Sharing s.sys.vm own s.sys.procs)
    (hlow : LowMapped s.sys) (hcons : Conserved s) (as : List MemAct) :
    (∀ bs, bs <+: as → Conserved (run ledgerStep s bs)) ↔ Along ledgerStep Balanced s as := by
  have hinit : Sound s := ⟨⟨own, h⟩, hlow, hcons⟩
  refine forall_prefix_iff_along (fun s hs => hs.2.2) ?_
    (fun s a hs => balanced_of_conserved hs) hinit as
  intro s a hs hbal
  exact exec_invariant (fun s' hrun => (ledgerStep_settled hs hrun).1 hbal) hs

end Runs

/-! ## One page -/

section Sample

/-- A process with one page, at 1 GiB, that has one reference. -/
def oneMapping : Ledger where
  sys := ⟨(onePageVm { rw := true, user := true }).setCount 5 1, [1]⟩
  user g := g = 5

lemma oneMapping_sharing : ∃ own, Sharing oneMapping.sys.vm own [1] ∧
    ∀ k ∈ spots [1], ∀ g, frameAt oneMapping.sys.vm k = some g →
      k = (1, pathOf (2 ^ 30)) ∧ g = 5 := by
  obtain ⟨own, h, hlookup⟩ := onePageVm_sharing { rw := true, user := true }
  have hsole : ∀ k ∈ spots [1], ∀ g, frameAt oneMapping.sys.vm k = some g →
      k = (1, pathOf (2 ^ 30)) ∧ g = 5 := by
    intro k hk g hg
    obtain ⟨hr, hp⟩ := mem_spots.1 hk
    obtain ⟨e, he, rfl⟩ := frameAt_eq_some.1 hg
    rw [mem_singleton.1 hr] at he
    obtain ⟨hpath, rfl⟩ := hlookup _ hp e he
    exact ⟨Prod.ext (mem_singleton.1 hr) hpath, rfl⟩
  refine ⟨own, { h with tables := { h.tables with }, counted := fun g => ?_ }, hsole⟩
  by_cases hg : g = 5
  · rw [hg]
    exact holders_le_one (nodup_spots (nodup_singleton 1)) fun k hk k' hk' hk5 hk5' => by
      rw [(hsole k hk 5 hk5).1, (hsole k' hk' 5 hk5').1]
  · exact (h.counted g).trans (update_of_ne hg ..).ge

lemma oneMapping_low : LowMapped oneMapping.sys := by
  intro x hx
  rw [mem_singleton.1 hx]
  decide

lemma oneMapping_conserved : Conserved oneMapping := by
  have hspot : (1, pathOf (2 ^ 30)) ∈ spots [1] :=
    mem_spots.2 ⟨mem_singleton_self 1, pathOf_mem (by decide) (by decide)⟩
  have hat : frameAt oneMapping.sys.vm (1, pathOf (2 ^ 30)) = some 5 := rfl
  obtain ⟨_, -, hsole⟩ := oneMapping_sharing
  have hmapped : ∀ g, oneMapping.sys.mappings g ≠ 0 → g = 5 := by
    intro g hg
    obtain ⟨k, hk, hgk⟩ := mappings_ne_zero.1 hg
    exact (hsole k hk g hgk).2
  have hone : oneMapping.sys.mappings 5 = 1 := by
    have hle : oneMapping.sys.mappings 5 ≤ 1 := holders_le_one (nodup_spots (nodup_singleton 1))
      fun k hk k' hk' hg hg' => by rw [(hsole k hk 5 hg).1, (hsole k' hk' 5 hg').1]
    have hpos : 1 ≤ oneMapping.sys.mappings 5 := one_le_holders hspot hat
    omega
  have huser : ∀ g, oneMapping.user g = true ↔ g = 5 := fun g => decide_eq_true_iff
  refine ⟨fun g => ?_, fun g hg => ?_, nofun⟩
  · rw [huser]
    refine ⟨?_, hmapped g⟩
    rintro rfl
    rw [hone]
    decide
  · rw [(huser g).1 hg, hone]
    exact ⟨rfl, rfl⟩

/-- Mapping a second page breaks it: the page has two references and one mapping. -/
theorem not_conserved_map :
    Conserved oneMapping ∧ ¬ Conserved (run ledgerStep oneMapping
      [.map 1 (2 ^ 30 + 4096) { rw := true, user := true }]) := by
  refine ⟨oneMapping_conserved, fun hcons => ?_⟩
  obtain ⟨own, h, -⟩ := oneMapping_sharing
  have hsound : Sound oneMapping := ⟨⟨own, h⟩, oneMapping_low, oneMapping_conserved⟩
  rw [run_cons, run_nil] at hcons
  have hgrants := balanced_of_conserved hsound hcons (mem_singleton_self 1) (by decide)
    (by decide)
  cases hgrants

/-- It is conserved when the process forks, writes to the page and exits. -/
theorem conserved_iff_fork :
    Conserved (run ledgerStep oneMapping [.act (.fork 1), .act (.fault 1 (2 ^ 30)),
      .act (.exit 1)]) := by
  obtain ⟨own, h, -⟩ := oneMapping_sharing
  exact (conserved_iff oneMapping own h oneMapping_low oneMapping_conserved
    [.act (.fork 1), .act (.fault 1 (2 ^ 30)), .act (.exit 1)]).2
    ⟨trivial, trivial, trivial, trivial⟩ _ (prefix_refl _)

end Sample

end Aurora.Paging
