import Aurora.Kernel.BuddyListed

/-!
# Boot and every history of calls

`phys_mem_init` builds a represented state: the pages are listed one by one and then
coalesced. From there any history of `alloc_pages` and `free_pages` calls, where
callers free only what they hold, keeps the representation invariant.

## Main definitions

* `Marked`: the invariant while pages are being listed.
* `Op`, `RunState`, `runOps`: histories of calls.
* `BuddyInvariant`: what holds in every reached state.
-/

namespace Aurora.Buddy

variable {done : List ℕ} {r : ℕ → Bool} {ram : ℕ}

open Lib Function List Option

variable {s : PhysMem} {L : ℕ → List ℕ} {live : List Block} {p k : ℕ}

/-! ## Listing the pages -/

lemma mem_clampedRange {a b : ℕ} (hb : b ≤ buddyMaxPages) :
    p ∈ clampedRange a b ↔ a ≤ p ∧ p < b := by
  unfold clampedRange
  split_ifs with h
  · simp only [not_mem_nil, false_iff]
    omega
  · rw [mem_range'_1]
    omega

lemma nodup_clampedRange (a b : ℕ) : (clampedRange a b).Nodup := by
  unfold clampedRange
  split_ifs
  · exact nodup_nil
  · exact nodup_range'

/-- Marking reserves the pages and does nothing else. -/
lemma foldl_markReserved_spec (s : PhysMem) (ps : List ℕ) :
    (ps.foldl markReserved s).freeArea = s.freeArea ∧
      (ps.foldl markReserved s).totalPhysPages = s.totalPhysPages ∧
      ∀ p, ((ps.foldl markReserved s).pageArray p).order = (s.pageArray p).order ∧
        ((ps.foldl markReserved s).pageArray p).flags = { (s.pageArray p).flags with
          reserved := (s.pageArray p).flags.reserved || decide (p ∈ ps) } := by
  induction ps generalizing s with
  | nil => simp
  | cons q ps ih =>
    obtain ⟨hhead, htotal, hpage⟩ := ih (markReserved s q)
    refine ⟨hhead, htotal, fun p => ?_⟩
    rw [foldl_cons, (hpage p).1, (hpage p).2, markReserved]
    by_cases hpq : p = q
    · subst hpq
      simp
    · simp [pageArray_modifyPage_of_ne _ _ hpq, hpq]

/-- While pages are being listed: the pages `done` are free blocks of order 0, and the
reserved pages are those of `r`. -/
structure Marked (r : ℕ → Bool) (s : PhysMem) (done : List ℕ) : Prop where
  lists : FreeLists s (Function.update (fun _ => []) 0 done)
  descr : ∀ p ∈ done, Descr s true ⟨p, 0⟩
  listed : ∀ p, (s.pageArray p).flags.free = true → p ∈ done
  reserved : ∀ p, (s.pageArray p).flags.reserved = r p
  order : ∀ p, (s.pageArray p).order = 0

lemma not_mem_update_nil (h : p ∉ done) (j : ℕ) : p ∉ update (fun _ => ([] : List ℕ)) 0 done j := by
  by_cases hj : j = 0
  · subst hj
    rwa [update_self]
  · simp [update_of_ne hj]

/-- One turn of the loop of `buddy_mark_available`. -/
lemma Marked.markAvailable (h : Marked r s done)
    (hp : p ∉ done) : Marked r (markAvailable s p) (if r p then done else p :: done) := by
  rw [Buddy.markAvailable, h.reserved p]
  by_cases hr : r p = true
  · rwa [if_pos hr, if_pos hr]
  rw [if_neg hr, if_neg hr]
  set s1 := s.modifyPage p fun _ => { flags := { free := true }, physAddr := pfnToPhys p } with hs1
  set s2 := { listAdd s1 0 p with statTotalPages := (listAdd s1 0 p).statTotalPages + 1 }
  have hadd := SameDescr.listAdd s1 0 p
  have hsame : SameDescr s1 s2 := ⟨hadd.flags, hadd.order, hadd.physAddr, hadd.total⟩
  have hself : s1.pageArray p = { flags := { free := true }, physAddr := pfnToPhys p } :=
    pageArray_modifyPage_self s p _
  have hout := not_mem_update_nil hp
  have hlists : FreeLists (listAdd s1 0 p) _ :=
    (h.lists.modifyPage hout _).listAdd hout (Nat.zero_le _)
  constructor
  · have hlists2 : FreeLists s2 _ := hlists.congr rfl rfl
    simpa using hlists2
  · intro q hq
    refine Descr.congr (s := s1) ?_ (hsame.sameAt q)
    by_cases hqp : q = p
    · subst hqp
      constructor <;> simp [hself]
    · have hqdone : q ∈ done := (mem_cons.1 hq).resolve_left hqp
      exact (h.descr q hqdone).congr (.modifyPage s _ hqp)
  · intro q hq
    by_cases hqp : q = p
    · exact mem_cons.2 (.inl hqp)
    · refine mem_cons_of_mem p (h.listed q ?_)
      rwa [← (SameAt.modifyPage s _ hqp).flags, ← hsame.flags]
  · intro q
    rw [hsame.flags]
    by_cases hqp : q = p
    · subst hqp
      rw [hself]
      exact (Bool.eq_false_of_not_eq_true hr).symm
    · rw [(SameAt.modifyPage s _ hqp).flags]
      exact h.reserved q
  · intro q
    rw [hsame.order]
    by_cases hqp : q = p
    · rw [hqp, hself]
    · exact (SameAt.modifyPage s _ hqp).order.trans (h.order q)

lemma totalPhysPages_markAvailable (s : PhysMem) (p : ℕ) :
    (markAvailable s p).totalPhysPages = s.totalPhysPages := by
  unfold markAvailable
  split_ifs <;> rfl

/-- The loop lists the unreserved pages of its range. -/
lemma Marked.foldl {ps : List ℕ} (h : Marked r s done) (hnd : ps.Nodup)
    (hdisj : ∀ p ∈ ps, p ∉ done) :
    ∃ done', Marked r (ps.foldl Buddy.markAvailable s) done' ∧
      (ps.foldl Buddy.markAvailable s).totalPhysPages = s.totalPhysPages ∧
      (done.Nodup → done'.Nodup) ∧ ∀ p, p ∈ done' ↔ (p ∈ ps ∧ r p = false) ∨ p ∈ done := by
  induction ps generalizing s done with
  | nil => exact ⟨done, h, rfl, id, by simp⟩
  | cons q ps ih =>
    have hq := hdisj q mem_cons_self
    have hqps := (nodup_cons.1 hnd).1
    have hdisj' : ∀ p ∈ ps, p ∉ (if r q then done else q :: done) := by
      intro p hp
      have hpq : p ≠ q := fun he => hqps (he ▸ hp)
      have hpdone := hdisj p (mem_cons_of_mem q hp)
      split_ifs <;> simp [hpq, hpdone]
    obtain ⟨done', hmark, htotal, hnd', hmem⟩ :=
      ih (h.markAvailable hq) (nodup_cons.1 hnd).2 hdisj'
    refine ⟨done', hmark, htotal.trans (totalPhysPages_markAvailable s q), ?_, ?_⟩
    · intro hdone
      refine hnd' ?_
      split_ifs
      · exact hdone
      · exact nodup_cons.2 ⟨hq, hdone⟩
    · intro p
      by_cases hr : r q = true <;> by_cases hpq : p = q <;> simp_all

lemma freeBlocks_nil : freeBlocks (fun _ => []) = [] := by
  refine eq_nil_iff_forall_not_mem.2 fun b hb => ?_
  exact absurd (mem_freeBlocks.1 hb).2 not_mem_nil

lemma freeBlocks_order_zero (done : List ℕ) :
    (freeBlocks (update (fun _ => []) 0 done)).Perm (done.map (Block.mk · 0)) := by
  have h := freeBlocks_update (k := 0) (L := fun _ => []) (Nat.zero_le _) done
  rwa [update_eq_self_iff.2 rfl, freeBlocks_nil, append_nil] at h

/-- When every managed page is listed or reserved, the state is represented. -/
lemma Marked.rep (h : Marked r s done) (hnd : done.Nodup)
    (hall : ∀ p, p ∈ done ↔ p < s.totalPhysPages ∧ r p = false)
    (htotal : s.totalPhysPages ≤ buddyMaxPages) :
    Rep s (update (fun _ => []) 0 done) [] := by
  have hperm := freeBlocks_order_zero done
  have hmem : ∀ b, b ∈ freeBlocks (update (fun _ => []) 0 done) ↔
      ∃ p ∈ done, ⟨p, 0⟩ = b := fun b => hperm.mem_iff.trans mem_map
  constructor
  · exact h.lists
  · intro b hb
    obtain ⟨p, hp, rfl⟩ := (hmem b).1 hb
    exact h.descr p hp
  · simp
  · intro p hp
    exact ⟨⟨p, 0⟩, (hmem _).2 ⟨p, h.listed p hp, rfl⟩, rfl⟩
  · rw [append_nil]
    refine Tiles.perm ⟨?_, ?_⟩ hperm.symm
    · intro b hb
      obtain ⟨p, -, rfl⟩ := mem_map.1 hb
      exact one_dvd p
    · have hspan : (done.map (Block.mk · 0)).flatMap Block.span = done := by
        simp [flatMap_map, Block.span]
      rw [hspan]
      have hres : ∀ p, p ∈ reservedPfns s ↔ p < s.totalPhysPages ∧ r p = true := by
        simp [reservedPfns, h.reserved]
      refine (perm_ext_iff_of_nodup ?_ nodup_range).2 fun p => ?_
      · refine nodup_append.2 ⟨hnd, nodup_range.filter _, ?_⟩
        rintro p hp q hq rfl
        have hp := ((hall p).1 hp).2
        have hq := ((hres p).1 hq).2
        simp [hp] at hq
      · rw [mem_append, hall, hres, mem_range]
        cases r p <;> simp
  · exact htotal

/-- Listing all pages from `a` on, where those below `a` are reserved. -/
lemma Marked.buddyMarkAvailable {a : ℕ} (h : Marked r s [])
    (hlow : ∀ p < a, r p = true) (htotal : s.totalPhysPages ≤ buddyMaxPages) :
    ∃ done, Rep (buddyMarkAvailable s a s.totalPhysPages) (update (fun _ => []) 0 done) []
      ∧ (buddyMarkAvailable s a s.totalPhysPages).totalPhysPages = s.totalPhysPages
      ∧ (∀ p, ((buddyMarkAvailable s a s.totalPhysPages).pageArray p).flags.reserved = r p)
      ∧ ∀ p, ((buddyMarkAvailable s a s.totalPhysPages).pageArray p).order = 0 := by
  obtain ⟨done, hdone, htotal', hnd, hmem⟩ :=
    h.foldl (nodup_clampedRange a s.totalPhysPages) (by simp)
  refine ⟨done, hdone.rep (hnd nodup_nil) ?_ (htotal'.trans_le htotal), htotal', hdone.reserved,
    hdone.order⟩
  intro p
  rw [hmem p, mem_clampedRange htotal, htotal']
  constructor
  · rintro (⟨⟨-, hlt⟩, hr⟩ | hnil)
    · exact ⟨hlt, hr⟩
    · cases hnil
  · rintro ⟨hlt, hr⟩
    refine .inl ⟨⟨?_, hlt⟩, hr⟩
    by_contra hlt'
    simp [hlow p (not_le.1 hlt')] at hr

/-! ## Building the page array -/

/-- A fresh page array lists nothing. -/
lemma marked_emptyMem (total : ℕ) : Marked (fun _ => false) (emptyMem total 0 0) [] where
  lists := by
    rw [update_eq_self_iff.2 rfl]
    exact ⟨fun _ => rfl, fun _ => nodup_nil, by simp, by simp⟩
  descr := by simp
  listed p hp := by cases hp
  reserved _ := rfl
  order _ := rfl

/-- Reserving page frames lists none. -/
lemma Marked.reserve (h : Marked r s []) (ps : List ℕ) :
    Marked (fun p => r p || decide (p ∈ ps)) (ps.foldl markReserved s) [] := by
  obtain ⟨hhead, -, hpage⟩ := foldl_markReserved_spec s ps
  have hnil : update (fun _ => ([] : List ℕ)) 0 [] = fun _ => [] :=
    update_eq_self_iff.2 rfl
  constructor
  · have hlists := h.lists
    rw [hnil] at hlists ⊢
    refine ⟨fun k => ?_, fun k => nodup_nil, by simp, by simp⟩
    rw [isList_nil, hhead]
    exact hlists.isList k
  · simp
  · intro p hp
    rw [(hpage p).2] at hp
    exact h.listed p hp
  · intro p
    rw [(hpage p).2, h.reserved]
  · intro p
    rw [(hpage p).1, h.order]

/-- The page frames that `phys_mem_init` reserves. -/
def bootReserved (totalPages p : ℕ) : Bool :=
  decide (p < kernelReservedPages) ||
    decide (8 * 1024 * 1024 / pageSize ≤ p ∧ p < min (32 * 1024 * 1024 / pageSize) totalPages)

lemma Marked.reserveKernel (h : Marked r s []) (htotal : s.totalPhysPages ≤ buddyMaxPages) :
    Marked (fun p => r p || bootReserved s.totalPhysPages p) (reserveKernel s) [] ∧
      (reserveKernel s).totalPhysPages = s.totalPhysPages := by
  have htotal1 : (buddyMarkReserved s 0 kernelReservedPages).totalPhysPages = s.totalPhysPages :=
    (foldl_markReserved_spec _ _).2.1
  have hheapEnd : (if 32 * 1024 * 1024 / pageSize > s.totalPhysPages then s.totalPhysPages
      else 32 * 1024 * 1024 / pageSize) = min (32 * 1024 * 1024 / pageSize) s.totalPhysPages := by
    split <;> omega
  have hmarked := (h.reserve (clampedRange 0 kernelReservedPages)).reserve
    (clampedRange (8 * 1024 * 1024 / pageSize) (min (32 * 1024 * 1024 / pageSize) s.totalPhysPages))
  have hkernel : kernelReservedPages ≤ buddyMaxPages := by decide
  simp only [mem_clampedRange hkernel, mem_clampedRange ((min_le_right _ _).trans htotal),
    Nat.zero_le, true_and, Bool.or_assoc] at hmarked
  unfold Buddy.reserveKernel
  dsimp only
  rw [htotal1, hheapEnd]
  exact ⟨hmarked, (foldl_markReserved_spec _ _).2.1.trans htotal1⟩

/-- Before the coalescing the free blocks are the single page frames that are managed and
not reserved. -/
lemma buildBuddy_listed (hram : ram ≤ MemDetect.ramCap) :
    ∃ s done, buildBuddy ram = buddyCoalesceAll s ∧
      Rep s (update (fun _ => []) 0 done) [] ∧ s.totalPhysPages = ram / pageSize ∧
      (∀ p, (s.pageArray p).flags.reserved = bootReserved (ram / pageSize) p) ∧
      ∀ p, (s.pageArray p).order = 0 := by
  have htotal : ram / pageSize ≤ buddyMaxPages := Nat.div_le_of_le_mul hram
  obtain ⟨hmarked, htotal1⟩ := (marked_emptyMem (ram / pageSize)).reserveKernel htotal
  have hlow : ∀ p < kernelReservedPages, (false || bootReserved (ram / pageSize) p) = true := by
    intro p hp
    rw [Bool.false_or, bootReserved, decide_eq_true hp, Bool.true_or]
  obtain ⟨done, hrep, htotal2, hpages⟩ :=
    hmarked.buddyMarkAvailable hlow (htotal1.trans_le htotal)
  exact ⟨_, done, rfl, hrep, htotal2.trans htotal1, hpages⟩

lemma Rep.buddyCoalesceAll (h : Rep s L live) :
    ∃ s' L', buddyCoalesceAll s = some s' ∧ Rep s' L' live ∧ SameMem s s' ∧ PhysKept s s' := by
  have hkeeps : MergeKeeps fun s' L' => Rep s' L' live ∧ SameMem s s' ∧ PhysKept s s' := by
    refine ⟨fun hI => hI.1.toListed, fun hI hp => ?_⟩
    obtain ⟨s1, r, L1, hmerge, hm⟩ := buddyMerge_spec hI.1 hp
    obtain ⟨_, _, _, hmerge2, hsame, -⟩ := hI.1.toListed.buddyMerge hp
    cases hmerge.symm.trans hmerge2
    exact ⟨s1, r, L1, hmerge, ⟨hm.rep, hI.2.1.trans hm.mem, hI.2.2.trans hsame.phys⟩, hm.listed,
      hm.fewer⟩
  exact buddyCoalesceAll_spec hkeeps ⟨h, .refl s, .refl s⟩

/-- **Boot** builds a represented state from any amount of memory the detection returns. -/
lemma buildBuddy_spec (hram : ram ≤ MemDetect.ramCap) :
    ∃ s L, buildBuddy ram = some s ∧ Rep s L [] := by
  obtain ⟨_, _, hboot, hrep0, -⟩ := buildBuddy_listed hram
  obtain ⟨s, L, hs, hrep, -⟩ := hrep0.buddyCoalesceAll
  exact ⟨s, L, hboot.trans hs, hrep⟩

lemma physMemInit_spec {mem : MemDetect.Memory} {mbInfo : Option ℕ} {fuel : ℕ}
    (h : physMemInit mem mbInfo fuel = some s) : ∃ L, Rep s L [] := by
  obtain ⟨_, hram, h⟩ := bind_eq_some_iff.1 h
  obtain ⟨_, L, hs', hrep⟩ := buildBuddy_spec (MemDetect.totalRam_le hram)
  cases h.symm.trans hs'
  exact ⟨L, hrep⟩

/-- Boot returns whenever the reading of the boot information does. -/
lemma exists_physMemInit {mem : MemDetect.Memory} {mbInfo : Option ℕ} {fuel : ℕ}
    (h : MemDetect.totalRam mem mbInfo fuel = some ram) :
    ∃ s, physMemInit mem mbInfo fuel = some s := by
  obtain ⟨s, L, hs, -⟩ := buildBuddy_spec (MemDetect.totalRam_le h)
  exact ⟨s, by simp [physMemInit, h, hs]⟩

/-! ## Histories of calls -/

/-- A call of the interface. -/
inductive Op where
  | alloc (order : ℕ)
  | free (ptr order : ℕ)
  deriving DecidableEq, Repr

/-- The allocator and what its callers hold: addresses with their orders. -/
structure RunState where
  mem : PhysMem
  live : List (ℕ × ℕ)

/-- One call. A `free` of something that is not held is a call nobody makes. -/
def applyOp (r : RunState) : Op → Option RunState
  | .alloc order => do
    let (mem, ptr) ← allocPages r.mem order
    match ptr with
    | none => some { r with mem }
    | some ptr => some { mem, live := (ptr, order) :: r.live }
  | .free ptr order =>
    if (ptr, order) ∈ r.live then do
      let mem ← freePages r.mem ptr order
      some { mem, live := r.live.erase (ptr, order) }
    else some r

def runOps (r : RunState) (ops : List Op) : Option RunState := ops.foldlM applyOp r

/-- The block an allocation stands for. -/
def blockOf (a : ℕ × ℕ) : Block := ⟨(a.1 - physMemBase) / pageSize, a.2⟩

def addrOf (b : Block) : ℕ × ℕ := (pfnToPhys b.base, b.order)

lemma blockOf_addrOf (b : Block) : blockOf (addrOf b) = b := by
  simp [blockOf, addrOf, pfnToPhys, pageSize]

lemma addrOf_injective : Function.Injective addrOf :=
  Function.LeftInverse.injective blockOf_addrOf

/-- The callers hold exactly the live blocks of the representation. -/
def RunRep (r : RunState) : Prop :=
  ∃ L live, Rep r.mem L live ∧ r.live = live.map addrOf

/-- Every call returns and keeps the representation. -/
lemma applyOp_spec {r : RunState} (h : RunRep r) (op : Op) :
    ∃ r', applyOp r op = some r' ∧ RunRep r' := by
  obtain ⟨L, live, hrep, hlive⟩ := h
  cases op with
  | alloc order =>
    rcases allocPages_spec hrep order with ⟨hfail, -⟩ | ⟨s', L', b, halloc, rfl, ⟨hrep', -, -, -⟩⟩
    · exact ⟨r, by simp [applyOp, hfail], L, live, hrep, hlive⟩
    · refine ⟨⟨s', addrOf b :: r.live⟩, by simp [applyOp, halloc, addrOf], L', b :: live, hrep', ?_⟩
      simp [hlive]
  | free ptr order =>
    by_cases hmem : (ptr, order) ∈ r.live
    · obtain ⟨b, hb, heq⟩ := mem_map.1 (hlive ▸ hmem)
      obtain ⟨rfl, rfl⟩ := Prod.mk.inj heq
      obtain ⟨s', L', hfree, hrep', -⟩ := freePages_spec hrep hb
      refine ⟨⟨s', r.live.erase (addrOf b)⟩, ?_, L', live.erase b, hrep', ?_⟩
      · simp only [applyOp, if_pos hmem, hfree, bind_eq_bind, bind_some]
        rfl
      · simp only [hlive]
        exact (map_erase addrOf_injective live).symm
    · exact ⟨r, by simp [applyOp, hmem], L, live, hrep, hlive⟩

lemma runOps_spec {r : RunState} (h : RunRep r) (ops : List Op) :
    ∃ r', runOps r ops = some r' ∧ RunRep r' := by
  induction ops generalizing r with
  | nil => exact ⟨r, rfl, h⟩
  | cons op ops ih =>
    obtain ⟨_, hop, hr1⟩ := applyOp_spec h op
    obtain ⟨r', hrest, hr'⟩ := ih hr1
    exact ⟨r', by simpa [runOps, foldlM_cons, hop] using hrest, hr'⟩

/-- The state of the allocator, with `L k` on the list of order `k` and the blocks `live`
held by callers. -/
structure BuddyInvariant (s : PhysMem) (L : ℕ → List ℕ) (live : List Block) : Prop where
  /-- Following a list ends and meets no descriptor twice. -/
  acyclic : ∀ k ≤ maxOrder, IsList s.next (s.freeArea k) (L k) ∧ (L k).Nodup
  /-- The lists hold exactly the free descriptors of their order, and there are no others. -/
  mem_iff : ∀ k ≤ maxOrder, ∀ p,
    p ∈ L k ↔ (s.pageArray p).flags.free = true ∧ (s.pageArray p).order = k
  order_le : ∀ p, (s.pageArray p).flags.free = true → (s.pageArray p).order ≤ maxOrder
  aligned : ∀ k ≤ maxOrder, ∀ p ∈ L k, 2 ^ k ∣ p
  disjoint : (freeBlocks L ++ live).Pairwise fun b c => b.span.Disjoint c.span
  /-- Each managed page frame is in one block or reserved. -/
  cover : ((freeBlocks L ++ live).flatMap Block.span ++ reservedPfns s).Perm
    (List.range s.totalPhysPages)

lemma Rep.buddyInvariant (h : Rep s L live) : BuddyInvariant s L live where
  acyclic k _ := ⟨h.lists.isList k, h.lists.nodup k⟩
  mem_iff _ _ _ := h.mem_iff
  order_le p hp := h.lists.bounded _ p (h.mem_iff.2 ⟨hp, rfl⟩)
  aligned _ _ _ hp := h.tiles.aligned _ (mem_append_left live (h.mem_freeBlocks_of_mem hp))
  disjoint := h.tiles.pairwise_disjoint
  cover := h.tiles.cover

/-- **The buddy allocator** from any boot: every history of calls returns, and the state it
reaches satisfies the representation invariant. -/
theorem runOps_buddyInvariant {mem : MemDetect.Memory} {mbInfo : Option ℕ} {fuel : ℕ}
    (h : physMemInit mem mbInfo fuel = some s) (ops : List Op) :
    ∃ r L, runOps ⟨s, []⟩ ops = some r ∧ BuddyInvariant r.mem L (r.live.map blockOf) := by
  obtain ⟨L0, hrep0⟩ := physMemInit_spec h
  obtain ⟨r, hrun, L, live, hrep, hlive⟩ := runOps_spec (r := ⟨s, []⟩) ⟨L0, [], hrep0, rfl⟩ ops
  refine ⟨r, L, hrun, ?_⟩
  have hblocks : r.live.map blockOf = live := by simp [hlive, Function.comp_def, blockOf_addrOf]
  rw [hblocks]
  exact hrep.buddyInvariant

/-- A boot without boot information, and four calls. -/
theorem runOps_buddyInvariant_sample :
    ∃ s r L, physMemInit (fun _ => 0) none 0 = some s ∧
      runOps ⟨s, []⟩ [.alloc 3, .alloc 0, .free 0x4F8000 3, .alloc 10] = some r ∧
      BuddyInvariant r.mem L (r.live.map blockOf) := by
  have hram : MemDetect.totalRam (fun _ => 0) none 0 = some (64 * 1024 * 1024) := rfl
  obtain ⟨s, hs⟩ := exists_physMemInit hram
  obtain ⟨r, L, hrun, hinv⟩ :=
    runOps_buddyInvariant hs [.alloc 3, .alloc 0, .free 0x4F8000 3, .alloc 10]
  exact ⟨s, r, L, hs, hrun, hinv⟩

end Aurora.Buddy
