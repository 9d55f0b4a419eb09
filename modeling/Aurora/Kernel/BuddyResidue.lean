import Aurora.Kernel.BuddyRuns
import Mathlib.Algebra.BigOperators.Group.List.Basic

/-!
# Nothing is left behind

Allocations take a block of the requested order out of a larger one and leave blocks whose
buddies contain it; merging at every `free_pages` puts them together again. So in every
history of calls the free blocks stay coalesced, and coalesced blocks are determined by the
page frames they cover.

## Main definitions

* `Settled`: the invariant of a run that began with coalesced blocks.
* `runOps_no_residue`: with nothing allocated, the free blocks are the ones of the start.
* `Exact`: `alloc_pages` fails only if no unused block is large enough.
-/

namespace Aurora.Buddy

open Lib Function List

variable {s s' : PhysMem} {L L' : ℕ → List ℕ} {live : List Block}

/-- The page frames of the free blocks: managed, not reserved, and not held by a caller. -/
lemma Rep.covered_iff (h : Rep s L live) (x : ℕ) : (∃ d ∈ freeBlocks L, x ∈ d.span) ↔
      x < s.totalPhysPages ∧ x ∉ reservedPfns s ∧ ∀ d ∈ live, x ∉ d.span := by
  constructor
  · rintro ⟨d, hd, hx⟩
    have hmem := mem_append_left live hd
    refine ⟨h.tiles.span_subset hmem hx, h.tiles.not_mem_rest hmem hx, fun c hc hxc => ?_⟩
    exact (pairwise_append.1 h.tiles.pairwise_disjoint).2.2 d hd c hc hx hxc
  · rintro ⟨hlt, hres, hlive⟩
    have hall := h.tiles.cover.mem_iff.2 (mem_range.2 hlt)
    obtain ⟨d, hd, hx⟩ := mem_flatMap.1 ((mem_append.1 hall).resolve_right hres)
    rcases mem_append.1 hd with hd | hd
    · exact ⟨d, hd, hx⟩
    · exact absurd hx (hlive d hd)

lemma Rep.apart (h : Rep s L live) : Apart maxOrder (freeBlocks L) where
  aligned b hb := h.tiles.aligned b (mem_append_left live hb)
  order_le b hb := (h.free_descr b hb).order_le
  eq_of_mem _ hb _ hc _ := h.tiles.eq_of_mem_span (mem_append_left live hb)
    (mem_append_left live hc)

/-- An allocation leaves coalesced blocks coalesced. -/
lemma Allocated.coalesced {b : Block} (h : Allocated s L live b s' L') (hrep : Rep s L live)
    (hco : Coalesced maxOrder (freeBlocks L)) : Coalesced maxOrder (freeBlocks L') := by
  refine coalesced_of_not_covered fun c hc horder => ?_
  rcases h.pieces c hc with hold | hnew
  · -- what was not free before is not free now
    obtain ⟨x, hx, hnot⟩ := hco.buddy_not_covered hrep.apart hold horder
    refine ⟨x, hx, fun d hd hxd => ?_⟩
    obtain ⟨hlt, hres, hlive⟩ := (h.rep.covered_iff x).1 ⟨d, hd, hxd⟩
    rw [h.mem.total] at hlt
    rw [h.mem.reserved] at hres
    obtain ⟨d', hd', hxd'⟩ := (hrep.covered_iff x).2
      ⟨hlt, hres, fun d hd => hlive d (mem_cons_of_mem b hd)⟩
    exact hnot d' hd' hxd'
  · refine ⟨b.base, hnew b.base_mem_span, fun d hd hbd => ?_⟩
    exact ((h.rep.covered_iff b.base).1 ⟨d, hd, hbd⟩).2.2 b mem_cons_self b.base_mem_span

/-! ## Histories of calls -/

/-- The number of page frames that the callers hold. -/
def heldPages (live : List Block) : ℕ := (live.map (2 ^ ·.order)).sum

/-- A run that began in the state `s₀` with coalesced blocks and nothing allocated. -/
structure Settled (s₀ : PhysMem) (r : RunState) (L : ℕ → List ℕ) (live : List Block) : Prop where
  rep : Rep r.mem L live
  held : r.live = live.map addrOf
  mem : SameMem s₀ r.mem
  coalesced : Coalesced maxOrder (freeBlocks L)
  used : r.mem.statUsedPages = s₀.statUsedPages + heldPages live

/-- Every call keeps the invariant. -/
lemma Settled.applyOp {s₀ : PhysMem} {r : RunState} (h : Settled s₀ r L live) (op : Op) :
    ∃ r' L' live', applyOp r op = some r' ∧ Settled s₀ r' L' live' := by
  cases op with
  | alloc order =>
    rcases allocPages_spec h.rep order with ⟨hfail, -⟩ | ⟨s', L', b, halloc, rfl, hnew⟩
    · exact ⟨r, L, live, by simp [Buddy.applyOp, hfail], h⟩
    · refine ⟨⟨s', addrOf b :: r.live⟩, L', b :: live,
        by simp [Buddy.applyOp, halloc, addrOf], hnew.rep, ?_, h.mem.trans hnew.mem,
        hnew.coalesced h.rep h.coalesced, ?_⟩
      · simp [h.held]
      · simp only [hnew.used, h.used, heldPages, map_cons, sum_cons]
        omega
  | free ptr order =>
    by_cases hmem : (ptr, order) ∈ r.live
    · obtain ⟨b, hb, heq⟩ := mem_map.1 (h.held ▸ hmem)
      obtain ⟨rfl, rfl⟩ := Prod.mk.inj heq
      obtain ⟨s', L', hfree, hrep, hsame, hused, hco⟩ := freePages_spec h.rep hb
      refine ⟨⟨s', r.live.erase (addrOf b)⟩, L', live.erase b, ?_, hrep, ?_, h.mem.trans hsame,
        hco h.coalesced, ?_⟩
      · simp only [Buddy.applyOp, if_pos hmem, hfree, Option.bind_eq_bind, Option.bind_some]
        rfl
      · simp only [h.held]
        exact (map_erase addrOf_injective live).symm
      · have hsum : 2 ^ b.order + heldPages (live.erase b) = heldPages live :=
          sum_map_erase (2 ^ ·.order) hb
        simp only [hused, releaseUsed, h.used]
        rw [if_pos (by omega)]
        omega
    · exact ⟨r, L, live, by simp [Buddy.applyOp, hmem], h⟩

lemma Settled.runOps {s₀ : PhysMem} {r : RunState} (h : Settled s₀ r L live) (ops : List Op) :
    ∃ r' L' live', runOps r ops = some r' ∧ Settled s₀ r' L' live' := by
  induction ops generalizing r L live with
  | nil => exact ⟨r, L, live, rfl, h⟩
  | cons op ops ih =>
    obtain ⟨_, _, _, hop, h1⟩ := h.applyOp op
    obtain ⟨r', L', live', hrest, h'⟩ := ih h1
    exact ⟨r', L', live', by simpa [Buddy.runOps, foldlM_cons, hop] using hrest, h'⟩

/-- **No fragmentation is left behind.** A history of calls that begins with coalesced free
blocks and nothing allocated, and ends with nothing allocated, ends with the free blocks and
the count of used pages that it began with. -/
theorem runOps_no_residue (h : Rep s L []) (hco : Coalesced maxOrder (freeBlocks L))
    (ops : List Op) :
    ∃ r, runOps ⟨s, []⟩ ops = some r ∧ (r.live = [] →
      ∃ L', FreeLists r.mem L' ∧ (∀ b, b ∈ freeBlocks L' ↔ b ∈ freeBlocks L) ∧
        r.mem.statUsedPages = s.statUsedPages) := by
  have hstart : Settled s ⟨s, []⟩ L [] := ⟨h, rfl, .refl s, hco, rfl⟩
  obtain ⟨r, L', live, hrun, hend⟩ := hstart.runOps ops
  refine ⟨r, hrun, fun hnone => ?_⟩
  obtain rfl : live = [] := List.map_eq_nil_iff.1 (hend.held.symm.trans hnone)
  refine ⟨L', hend.rep.lists, ?_, hend.used⟩
  refine hend.coalesced.mem_iff hend.rep.apart hco h.apart fun x => ?_
  rw [hend.rep.covered_iff, h.covered_iff, hend.mem.total, hend.mem.reserved]

/-- No page frame of the block is reserved or held by a caller. -/
def Unused (r : RunState) (b : Block) : Prop :=
  ∀ x ∈ b.span, x < r.mem.totalPhysPages ∧ x ∉ reservedPfns r.mem ∧
    ∀ c, addrOf c ∈ r.live → x ∉ c.span

/-- `alloc_pages` returns a block exactly if a naturally aligned one is unused. -/
def Exact (r : RunState) (order : ℕ) : Prop :=
  ∃ res, allocPages r.mem order = some res ∧
    (res.2.isSome ↔ ∃ b : Block, b.order = order ∧ b.Aligned ∧ Unused r b)

/-- **No request fails while it can be met**, after every history of calls that begins with
coalesced free blocks and nothing allocated. -/
theorem runOps_exact (h : Rep s L []) (hco : Coalesced maxOrder (freeBlocks L)) (ops : List Op)
    (order : ℕ) (horder : order ≤ maxOrder) :
    ∃ r, runOps ⟨s, []⟩ ops = some r ∧ Exact r order := by
  have hstart : Settled s ⟨s, []⟩ L [] := ⟨h, rfl, .refl s, hco, rfl⟩
  obtain ⟨r, L', live, hrun, hend⟩ := hstart.runOps ops
  refine ⟨r, hrun, ?_⟩
  have hunused (b : Block) : Unused r b ↔ ∀ x ∈ b.span, ∃ d ∈ freeBlocks L', x ∈ d.span := by
    simp [Unused, hend.rep.covered_iff, hend.held, addrOf_injective.eq_iff]
  rcases allocPages_spec hend.rep order with ⟨hfail, hsmall⟩ | ⟨_, L'', b, halloc, hb, hnew⟩
  · refine ⟨_, hfail, iff_of_false (by simp) ?_⟩
    rintro ⟨b, rfl, hal, hfree⟩
    -- smaller free blocks that cover an aligned block have been merged into it
    have hmem : b ∈ freeBlocks L' := by
      refine hend.coalesced.mem_of_covered hend.rep.apart hal horder fun x hx => ?_
      obtain ⟨d, hd, hxd⟩ := (hunused b).1 hfree x hx
      exact ⟨d, hd, hxd, (hsmall d hd).le⟩
    exact lt_irrefl _ (hsmall b hmem)
  · have hmem : b ∈ freeBlocks L'' ++ b :: live := by simp
    have htiles := hnew.rep.tiles
    refine ⟨_, halloc, iff_of_true rfl ⟨b, hb, htiles.aligned b hmem, ?_⟩⟩
    refine (hunused b).2 fun x hx => (hend.rep.covered_iff x).2 ?_
    rw [← hnew.mem.total, ← hnew.mem.reserved]
    refine ⟨htiles.span_subset hmem hx, htiles.not_mem_rest hmem hx, fun c hc => ?_⟩
    exact (pairwise_cons.1 (pairwise_append.1 htiles.pairwise_disjoint).2.1).1 c hc hx

/-! ## One page -/

/-- A single free page. -/
def onePage : PhysMem where
  pageArray := fun p => if p = 0 then { flags := { free := true }, physAddr := physMemBase } else {}
  freeArea := fun k => if k = 0 then some 0 else none
  totalPhysPages := 1
  statTotalPages := 1
  statUsedPages := 0

lemma freeBlocks_onePage : freeBlocks (update (fun _ => []) 0 [0]) = [⟨0, 0⟩] := by
  decide

lemma rep_onePage : Rep onePage (update (fun _ => []) 0 [0]) [] := by
  constructor
  · constructor
    · intro k
      by_cases hk : k = 0
      · subst hk
        exact ⟨rfl, rfl⟩
      · simp [onePage, hk]
    · intro k
      by_cases hk : k = 0
      · subst hk
        simp
      · simp [update_of_ne hk]
    · intro j k p _ hk
      by_cases hj0 : j = 0 <;> by_cases hk0 : k = 0 <;> simp_all [update_of_ne]
    · intro k p hp
      by_cases hk : k = 0
      · exact hk ▸ Nat.zero_le _
      · simp [update_of_ne hk] at hp
  · intro b hb
    obtain rfl := mem_singleton.1 hb
    exact ⟨rfl, rfl, rfl, Nat.zero_le _⟩
  · simp
  · intro p hp
    by_cases hp0 : p = 0
    · exact ⟨⟨0, 0⟩, by rw [freeBlocks_onePage]; simp, hp0.symm⟩
    · simp [onePage, hp0] at hp
  · rw [freeBlocks_onePage]
    exact ⟨by simp [Block.Aligned], by decide⟩
  · decide

/-- The page is allocated twice, once in vain, and freed. -/
theorem runOps_no_residue_onePage :
    ∃ r, runOps ⟨onePage, []⟩ [.alloc 0, .alloc 1, .free physMemBase 0] = some r ∧
      r.live = [] ∧ ∃ L', FreeLists r.mem L' ∧ (∀ b, b ∈ freeBlocks L' ↔ b = ⟨0, 0⟩) ∧
        r.mem.statUsedPages = 0 := by
  have hco : Coalesced maxOrder (freeBlocks (Function.update (fun _ => []) 0 [0])) := by
    intro b hb _
    obtain rfl := List.mem_singleton.1 hb
    decide
  obtain ⟨r, hrun, hend⟩ := runOps_no_residue rep_onePage hco
    [.alloc 0, .alloc 1, .free physMemBase 0]
  have hlive : (runOps ⟨onePage, []⟩ [.alloc 0, .alloc 1, .free physMemBase 0]).map RunState.live
      = some [] := by decide +kernel
  have hnone : r.live = [] := by simpa [hrun] using hlive
  obtain ⟨L', hlists, hblocks, hused⟩ := hend hnone
  refine ⟨r, hrun, hnone, L', hlists, fun b => ?_, hused⟩
  simp [hblocks, freeBlocks_onePage]

/-- The page is handed out, and the next request fails. -/
theorem runOps_exact_onePage : ∃ r, runOps ⟨onePage, []⟩ [.alloc 0] = some r ∧ Exact r 0 := by
  refine runOps_exact rep_onePage ?_ [.alloc 0] 0 (by decide)
  rw [freeBlocks_onePage]
  intro b hb _
  obtain rfl := List.mem_singleton.1 hb
  decide

end Aurora.Buddy
