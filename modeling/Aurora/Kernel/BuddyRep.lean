import Mathlib.Data.List.Flatten
import Aurora.Kernel.Buddy
import Aurora.Lib.DyadicBlocks

/-!
# What the allocator's data represents

The free lists hold blocks, and so do the callers; together with the reserved page
frames they tile the managed memory. `Rep s L live` ties the descriptors and the list
heads to the lists `L` and the live allocations `live`.

## Main definitions

* `FreeLists s L`: following the links from each head visits exactly `L k`.
* `freeBlocks L`: the blocks on the lists.
* `Rep s L live`: the representation invariant.
* `Rep.replace`: the one step lemma: some blocks are replaced by others that cover the
  same page frames.
-/

namespace Aurora.Buddy

open Lib Function List

/-! ## Free lists -/

/-- The list of order `k` holds exactly the descriptors `L k`. -/
structure FreeLists (s : PhysMem) (L : ℕ → List ℕ) : Prop where
  isList : ∀ k, IsList s.next (s.freeArea k) (L k)
  nodup : ∀ k, (L k).Nodup
  disjoint : ∀ j k p, p ∈ L j → p ∈ L k → j = k
  bounded : ∀ k p, p ∈ L k → k ≤ maxOrder

/-- The two states differ at most in their links and list heads. -/
structure SameDescr (s s' : PhysMem) : Prop where
  flags : ∀ p, (s'.pageArray p).flags = (s.pageArray p).flags
  order : ∀ p, (s'.pageArray p).order = (s.pageArray p).order
  physAddr : ∀ p, (s'.pageArray p).physAddr = (s.pageArray p).physAddr
  total : s'.totalPhysPages = s.totalPhysPages

variable {s s' s'' : PhysMem} {L : ℕ → List ℕ} {k p q : ℕ} {f : Page → Page}

lemma SameDescr.trans (h : SameDescr s s') (h' : SameDescr s' s'') : SameDescr s s'' where
  flags p := (h'.flags p).trans (h.flags p)
  order p := (h'.order p).trans (h.order p)
  physAddr p := (h'.physAddr p).trans (h.physAddr p)
  total := h'.total.trans h.total

@[simp] lemma pageArray_modifyPage_self (s : PhysMem) (p : ℕ) (f : Page → Page) :
    (s.modifyPage p f).pageArray p = f (s.pageArray p) := update_self ..

lemma pageArray_modifyPage_of_ne (s : PhysMem) (f : Page → Page) (h : q ≠ p) :
    (s.modifyPage p f).pageArray q = s.pageArray q := update_of_ne h ..

section

variable (s : PhysMem) (k : ℕ) (p : Option ℕ)

@[simp] lemma pageArray_setHead : (s.setHead k p).pageArray = s.pageArray := rfl

@[simp] lemma next_setHead : (s.setHead k p).next = s.next := rfl

@[simp] lemma freeArea_modifyPage (p : ℕ) (f : Page → Page) :
    (s.modifyPage p f).freeArea = s.freeArea := rfl

@[simp] lemma freeArea_setHead : (s.setHead k p).freeArea = update s.freeArea k p := rfl

@[simp] lemma totalPhysPages_modifyPage (p : ℕ) (f : Page → Page) :
    (s.modifyPage p f).totalPhysPages = s.totalPhysPages := rfl

lemma next_modifyPage (p : ℕ) (f : Page → Page) :
    (s.modifyPage p f).next = update s.next p (f (s.pageArray p)).next := by
  funext q
  by_cases h : q = p
  · subst h
    simp [PhysMem.next]
  · rw [update_of_ne h, PhysMem.next, pageArray_modifyPage_of_ne s f h]
    rfl

lemma SameDescr.setNext (p : ℕ) (v : Option ℕ) :
    SameDescr s (s.modifyPage p fun page => { page with next := v }) := by
  refine ⟨fun q => ?_, fun q => ?_, fun q => ?_, rfl⟩ <;>
  · by_cases h : q = p
    · subst h
      simp
    · rw [pageArray_modifyPage_of_ne s _ h]

lemma SameDescr.setHead : SameDescr s (s.setHead k p) :=
  ⟨fun _ => rfl, fun _ => rfl, fun _ => rfl, rfl⟩

lemma SameDescr.listAdd (k p : ℕ) : SameDescr s (listAdd s k p) :=
  (SameDescr.setNext s p _).trans (SameDescr.setHead _ _ _)

end

namespace FreeLists

/-- Descriptors may be rewritten as long as their links stay. -/
lemma congr (h : FreeLists s L) (hnext : s'.next = s.next) (hhead : s'.freeArea = s.freeArea) :
    FreeLists s' L where
  isList k := by
    rw [hnext, hhead]
    exact h.isList k
  nodup := h.nodup
  disjoint := h.disjoint
  bounded := h.bounded

lemma modifyPage (h : FreeLists s L) (hp : ∀ j, p ∉ L j) (f : Page → Page) :
    FreeLists (s.modifyPage p f) L where
  isList k := by
    rw [next_modifyPage]
    exact (h.isList k).update (hp k) _
  nodup := h.nodup
  disjoint := h.disjoint
  bounded := h.bounded

lemma listAdd (h : FreeLists s L) (hp : ∀ j, p ∉ L j) (hk : k ≤ maxOrder) :
    FreeLists (listAdd s k p) (update L k (p :: L k)) := by
  have hlist : ∀ j, IsList (Buddy.listAdd s k p).next ((Buddy.listAdd s k p).freeArea j)
      (update L k (p :: L k) j) := by
    intro j
    simp only [Buddy.listAdd, next_setHead, next_modifyPage, freeArea_setHead, freeArea_modifyPage]
    by_cases hj : j = k
    · subst hj
      simp only [update_self]
      exact (h.isList j).push (hp j)
    · simp only [update_of_ne hj]
      exact (h.isList j).update (hp j) _
  have hcase : ∀ j q, q ∈ update L k (p :: L k) j → (q = p ∧ j = k) ∨ q ∈ L j := by
    intro j q hq
    rw [update_apply] at hq
    split_ifs at hq with hj
    · exact (mem_cons.1 hq).imp (⟨·, hj⟩) (hj ▸ ·)
    · exact .inr hq
  refine ⟨hlist, fun j => (hlist j).nodup, fun i j q hi hj => ?_, fun j q hq => ?_⟩
  · rcases hcase i q hi with ⟨rfl, rfl⟩ | hi'
    · rcases hcase j q hj with ⟨-, rfl⟩ | hj'
      · rfl
      · exact absurd hj' (hp j)
    · rcases hcase j q hj with ⟨rfl, rfl⟩ | hj'
      · exact absurd hi' (hp i)
      · exact h.disjoint i j q hi' hj'
  · rcases hcase j q hq with ⟨-, rfl⟩ | hq
    · exact hk
    · exact h.bounded j q hq

end FreeLists

lemma not_mem_update_cons (hqp : q ≠ p) (hq : ∀ j, q ∉ L j) (j : ℕ) :
    q ∉ update L k (p :: L k) j := by
  by_cases hj : j = k
  · subst hj
    simp only [update_self, mem_cons, not_or]
    exact ⟨hqp, hq j⟩
  · rw [update_of_ne hj]
    exact hq j

lemma mem_update_cons {j : ℕ} : q ∈ update L k (p :: L k) j ↔ (q = p ∧ j = k) ∨ q ∈ L j := by
  by_cases hj : j = k
  · subst hj
    simp
  · simp [hj]

/-- Taking `p` off the list of order `k`. -/
def without (L : ℕ → List ℕ) (k p : ℕ) : ℕ → List ℕ := Function.update L k ((L k).erase p)

lemma mem_without {j : ℕ} (h : q ∈ without L k p j) : q ∈ L j := by
  by_cases hj : j = k
  · subst hj
    rw [without, update_self] at h
    exact mem_of_mem_erase h
  · rwa [without, update_of_ne hj] at h

section

variable (h : FreeLists s L) (hp : p ∈ L k)

include h hp

lemma FreeLists.not_mem_without (j : ℕ) : p ∉ without L k p j := by
  intro hmem
  obtain rfl : j = k := h.disjoint j k p (mem_without hmem) hp
  rw [without, update_self] at hmem
  exact (h.nodup j).not_mem_erase hmem

lemma FreeLists.mem_without_iff {j : ℕ} : q ∈ without L k p j ↔ q ∈ L j ∧ q ≠ p := by
  constructor
  · intro hq
    refine ⟨mem_without hq, ?_⟩
    rintro rfl
    exact h.not_mem_without hp j hq
  · rintro ⟨hq, hne⟩
    by_cases hj : j = k
    · subst hj
      rw [without, update_self]
      exact (mem_erase_of_ne hne).2 hq
    · rwa [without, update_of_ne hj]

/-- What a list is left with when one of its cells is unlinked, for a new link function
and list head. -/
lemma FreeLists.unlink (hk : IsList s'.next (s'.freeArea k) ((L k).erase p))
    (hother : ∀ j, j ≠ k → IsList s'.next (s'.freeArea j) (L j)) :
    FreeLists s' (without L k p) := by
  have hlist : ∀ j, IsList s'.next (s'.freeArea j) (without L k p j) := by
    intro j
    by_cases hj : j = k
    · subst hj
      rwa [without, update_self]
    · rw [without, update_of_ne hj]
      exact hother j hj
  exact ⟨hlist, fun j => (hlist j).nodup,
    fun i j q hi hj => h.disjoint i j q (mem_without hi) (mem_without hj),
    fun j q hq => h.bounded j q (mem_without hq)⟩

/-- `list_del` unlinks the descriptor and changes nothing but links. -/
lemma listDel_spec (hlen : (L k).length ≤ buddyMaxPages) :
    ∃ s', listDel s k p = some s' ∧ FreeLists s' (without L k p) ∧ SameDescr s s' := by
  have hother : ∀ j, j ≠ k → p ∉ L j := fun j hj hpj => hj (h.disjoint j k p hpj hp)
  have hlist := h.isList k
  have hnd := h.nodup k
  rcases append_of_mem hp with ⟨l1, l2, hl⟩
  rw [hl] at hlist hnd
  rcases eq_nil_or_concat l1 with rfl | ⟨l, b, rfl⟩
  · -- the first cell
    have herase : (L k).erase p = l2 := by simp [hl]
    refine ⟨_, if_pos hlist.1, h.unlink hp ?_ ?_, (SameDescr.setHead _ _ _).trans (.setNext _ _ _)⟩
    · rw [next_modifyPage, herase]
      simp only [next_setHead, freeArea_modifyPage, freeArea_setHead, update_self]
      exact hlist.2.update (nodup_cons.1 hnd).1 _
    · intro j hj
      rw [next_modifyPage]
      simp only [next_setHead, freeArea_modifyPage, freeArea_setHead, update_of_ne hj]
      exact (h.isList j).update (hother j hj) _
  · -- an inner cell, after `b`
    simp only [concat_eq_append, append_assoc, singleton_append] at hl hlist hnd
    have hbp : b ∈ L k := by simp [hl]
    have hbother : ∀ j, j ≠ k → b ∉ L j := fun j hj hbj => hj (h.disjoint j k b hbj hbp)
    have hhead : s.freeArea k ≠ some p := by
      rw [hlist.head_eq]
      cases l with
      | nil =>
        simp only [nil_append, nodup_cons, mem_cons, not_or] at hnd
        simpa using hnd.1.1
      | cons c l =>
        simp only [cons_append, nodup_cons, mem_append, mem_cons, not_or] at hnd
        simpa using hnd.1.2.2.1
    have hprev : findPrev s.next p (buddyMaxPages + 1) (s.freeArea k) = some (some b) := by
      refine findPrev_eq hlist ?_
      have := congrArg List.length hl
      simp only [length_append, length_cons] at this
      omega
    have hbne : b ≠ p := by
      have := (nodup_append.1 hnd).2.1
      simp only [nodup_cons, mem_cons, not_or] at this
      exact this.1.1
    have herase : (L k).erase p = l ++ b :: l2 := by
      rw [hl, erase_append_right, erase_cons_tail, erase_cons_head]
      · simpa using hbne
      · intro hpl
        exact (nodup_append.1 hnd).2.2 p hpl p (by simp) rfl
    have hnext : ((s.modifyPage b fun page => { page with next := s.next p }).modifyPage p
        fun page => { page with next := none }).next
          = update (update s.next b (s.next p)) p none := by
      rw [next_modifyPage, next_modifyPage]
    refine ⟨_, ?_, h.unlink hp ?_ ?_, (SameDescr.setNext s b (s.next p)).trans (.setNext _ p none)⟩
    · simp [listDel, hhead, hprev]
    · rw [hnext, herase]
      exact hlist.unlink none
    · intro j hj
      rw [hnext]
      exact ((h.isList j).update (hbother j hj) _).update (hother j hj) _

end

/-! ## Blocks -/

/-- The blocks on the free lists. -/
def freeBlocks (L : ℕ → List ℕ) : List Block :=
  (List.range (maxOrder + 1)).flatMap fun k => (L k).map (Block.mk · k)

lemma mem_freeBlocks {b : Block} : b ∈ freeBlocks L ↔ b.order ≤ maxOrder ∧ b.base ∈ L b.order := by
  simp only [freeBlocks, mem_flatMap, mem_range, mem_map]
  constructor
  · rintro ⟨k, hk, p, hp, rfl⟩
    exact ⟨Nat.lt_succ_iff.1 hk, hp⟩
  · rintro ⟨hk, hp⟩
    exact ⟨b.order, Nat.lt_succ_iff.2 hk, b.base, hp, rfl⟩

/-- One list apart from the others. -/
lemma freeBlocks_update (hk : k ≤ maxOrder) (l : List ℕ) : (freeBlocks (update L k l)).Perm
      (l.map (Block.mk · k) ++ freeBlocks (update L k [])) := by
  have hrange : (List.range (maxOrder + 1)).Perm (k :: (List.range (maxOrder + 1)).erase k) :=
    perm_cons_erase (mem_range.2 (Nat.lt_succ_of_le hk))
  have hrest : ∀ l, (freeBlocks (update L k l)).Perm (l.map (Block.mk · k) ++
      ((List.range (maxOrder + 1)).erase k).flatMap fun j => (L j).map (Block.mk · j)) := by
    intro l
    refine (hrange.flatMap_right _).trans ?_
    rw [flatMap_cons, update_self]
    refine List.Perm.of_eq (congrArg _ (flatMap_congr ?_))
    intro j hj
    have hne : j ≠ k := fun he => (nodup_range.not_mem_erase) (he ▸ hj)
    simp [hne]
  exact (hrest l).trans ((hrest []).symm.append_left _)

lemma freeBlocks_add (hk : k ≤ maxOrder) :
    (freeBlocks (update L k (p :: L k))).Perm (⟨p, k⟩ :: freeBlocks L) := by
  have hself : (freeBlocks L).Perm _ :=
    update_eq_self k L ▸ freeBlocks_update (L := L) hk (L k)
  exact (freeBlocks_update hk (p :: L k)).trans (hself.symm.cons _)

lemma freeBlocks_without (hk : k ≤ maxOrder) (hp : p ∈ L k) :
    (freeBlocks L).Perm (⟨p, k⟩ :: freeBlocks (without L k p)) := by
  have hself : (freeBlocks L).Perm _ :=
    update_eq_self k L ▸ freeBlocks_update (L := L) hk (L k)
  have hmap := ((perm_cons_erase hp).map (Block.mk · k)).append_right
    (freeBlocks (update L k []))
  exact hself.trans (hmap.trans ((freeBlocks_update hk ((L k).erase p)).symm.cons _))

/-! ## The representation invariant -/

/-- What the descriptor at the base of a block says. -/
structure Descr (s : PhysMem) (isFree : Bool) (b : Block) : Prop where
  free : (s.pageArray b.base).flags.free = isFree
  order : (s.pageArray b.base).order = b.order
  physAddr : (s.pageArray b.base).physAddr = pfnToPhys b.base
  order_le : b.order ≤ maxOrder

/-- The managed page frames that are reserved. -/
def reservedPfns (s : PhysMem) : List ℕ :=
  (List.range s.totalPhysPages).filter fun p => (s.pageArray p).flags.reserved

/-- The lists hold exactly the free descriptors, and the free blocks, the live blocks and
the reserved page frames tile the managed memory. -/
structure Rep (s : PhysMem) (L : ℕ → List ℕ) (live : List Block) : Prop where
  lists : FreeLists s L
  free_descr : ∀ b ∈ freeBlocks L, Descr s true b
  live_descr : ∀ b ∈ live, Descr s false b
  listed : ∀ p, (s.pageArray p).flags.free = true → ∃ b ∈ freeBlocks L, b.base = p
  tiles : Tiles (freeBlocks L ++ live) (reservedPfns s) s.totalPhysPages
  total_le : s.totalPhysPages ≤ buddyMaxPages

/-- The same page frames are managed and reserved. -/
structure SameMem (s s' : PhysMem) : Prop where
  total : s'.totalPhysPages = s.totalPhysPages
  reserved : reservedPfns s' = reservedPfns s

lemma SameMem.refl (s : PhysMem) : SameMem s s := ⟨rfl, rfl⟩

lemma SameMem.trans (h : SameMem s s') (h' : SameMem s' s'') : SameMem s s'' :=
  ⟨h'.total.trans h.total, h'.reserved.trans h.reserved⟩

/-- The descriptor of `p` is the same in both states, up to its link and count. -/
structure SameAt (s s' : PhysMem) (p : ℕ) : Prop where
  flags : (s'.pageArray p).flags = (s.pageArray p).flags
  order : (s'.pageArray p).order = (s.pageArray p).order
  physAddr : (s'.pageArray p).physAddr = (s.pageArray p).physAddr

lemma SameDescr.sameAt (h : SameDescr s s') (p : ℕ) : SameAt s s' p :=
  ⟨h.flags p, h.order p, h.physAddr p⟩

lemma Descr.congr {isFree : Bool} {b : Block} (h : Descr s isFree b)
    (hsame : SameAt s s' b.base) : Descr s' isFree b where
  free := hsame.flags ▸ h.free
  order := hsame.order ▸ h.order
  physAddr := hsame.physAddr ▸ h.physAddr
  order_le := h.order_le

/-- What replaces the free blocks `R` and the live blocks `Q` by the free blocks `A` and
the live blocks `B`, writing the descriptors `T` only. -/
structure Replacement (s s' : PhysMem) (R Q A B : List Block) (T : List ℕ) : Prop where
  within : ∀ p ∈ T, ∃ b ∈ R ++ Q, p ∈ b.span
  base_mem : ∀ b ∈ R, b.base ∈ T
  same : ∀ p, p ∉ T → SameAt s s' p
  total : s'.totalPhysPages = s.totalPhysPages
  free_descr : ∀ b ∈ A, Descr s' true b
  live_descr : ∀ b ∈ B, Descr s' false b
  listed : ∀ p ∈ T, (s'.pageArray p).flags.free = true → ∃ b ∈ A, b.base = p
  unreserved : ∀ p ∈ T, (s'.pageArray p).flags.reserved = false
  tiles : ∀ X rest n, Tiles (R ++ Q ++ X) rest n → Tiles (A ++ B ++ X) rest n

lemma perm_parts {α : Type*} {F M R K Q N : List α} (hF : F.Perm (R ++ K))
    (hM : M.Perm (Q ++ N)) : (F ++ M).Perm (R ++ Q ++ (K ++ N)) := by
  refine (hF.append hM).trans ?_
  simp only [append_assoc]
  refine List.Perm.append_left R ?_
  rw [← append_assoc, ← append_assoc]
  exact perm_append_comm.append_right N

/-- **The step lemma**: replacing blocks by blocks that cover the same page frames keeps
the invariant. -/
lemma Rep.replace {L' : ℕ → List ℕ} {live live' R Q A B K M : List Block} {T : List ℕ}
    (h : Rep s L live) (hrep : Replacement s s' R Q A B T) (hlists : FreeLists s' L')
    (hfree : (freeBlocks L).Perm (R ++ K)) (hfree' : (freeBlocks L').Perm (A ++ K))
    (hlive : live.Perm (Q ++ M)) (hlive' : live'.Perm (B ++ M)) :
    Rep s' L' live' ∧ SameMem s s' := by
  have htiles := h.tiles.perm (perm_parts hfree hlive)
  -- a block that stays does not begin inside a block that goes
  have hkeep : ∀ b ∈ K ++ M, b.base ∉ T := by
    intro b hb hbT
    obtain ⟨c, hc, hbc⟩ := hrep.within _ hbT
    have hdisj := (pairwise_append.1 htiles.pairwise_disjoint).2.2 c hc b hb
    exact hdisj hbc b.base_mem_span
  have hreserved : reservedPfns s' = reservedPfns s := by
    rw [reservedPfns, reservedPfns, hrep.total]
    refine filter_congr fun p hp => ?_
    by_cases hpT : p ∈ T
    · rw [hrep.unreserved p hpT]
      obtain ⟨c, hc, hpc⟩ := hrep.within p hpT
      have hnot := htiles.not_mem_rest (mem_append_left _ hc) hpc
      simp only [reservedPfns, mem_filter, not_and, Bool.not_eq_true] at hnot
      exact (hnot hp).symm
    · rw [(hrep.same p hpT).flags]
  refine ⟨?_, hrep.total, hreserved⟩
  constructor
  · exact hlists
  · intro b hb
    rcases mem_append.1 (hfree'.mem_iff.1 hb) with hA | hK
    · exact hrep.free_descr b hA
    · have hold := h.free_descr b (hfree.mem_iff.2 (mem_append_right R hK))
      exact hold.congr (hrep.same _ (hkeep b (mem_append_left _ hK)))
  · intro b hb
    rcases mem_append.1 (hlive'.mem_iff.1 hb) with hA | hK
    · exact hrep.live_descr b hA
    · have hold := h.live_descr b (hlive.mem_iff.2 (mem_append_right Q hK))
      exact hold.congr (hrep.same _ (hkeep b (mem_append_right _ hK)))
  · intro p hp
    by_cases hpT : p ∈ T
    · obtain ⟨b, hb, hbase⟩ := hrep.listed p hpT hp
      exact ⟨b, hfree'.mem_iff.2 (mem_append_left K hb), hbase⟩
    · rw [(hrep.same p hpT).flags] at hp
      obtain ⟨b, hb, rfl⟩ := h.listed p hp
      rcases mem_append.1 (hfree.mem_iff.1 hb) with hR | hK
      · exact absurd (hrep.base_mem b hR) hpT
      · exact ⟨b, hfree'.mem_iff.2 (mem_append_right A hK), rfl⟩
  · rw [hreserved, hrep.total]
    exact (hrep.tiles _ _ _ htiles).perm (perm_parts hfree' hlive').symm
  · exact hrep.total.trans_le h.total_le

namespace Rep

variable {live : List Block}

/-- The order in which the callers are listed does not matter. -/
lemma perm {live' : List Block} (h : Rep s L live) (hp : live.Perm live') : Rep s L live' where
  lists := h.lists
  free_descr := h.free_descr
  live_descr b hb := h.live_descr b (hp.mem_iff.2 hb)
  listed := h.listed
  tiles := h.tiles.perm (hp.append_left _)
  total_le := h.total_le

/-- The lists hold exactly the descriptors with the free flag and their order. -/
lemma mem_iff (h : Rep s L live) :
    p ∈ L k ↔ (s.pageArray p).flags.free = true ∧ (s.pageArray p).order = k := by
  constructor
  · intro hp
    have hd := h.free_descr ⟨p, k⟩ (mem_freeBlocks.2 ⟨h.lists.bounded k p hp, hp⟩)
    exact ⟨hd.free, hd.order⟩
  · rintro ⟨hfree, rfl⟩
    obtain ⟨b, hb, rfl⟩ := h.listed p hfree
    rw [(h.free_descr b hb).order]
    exact (mem_freeBlocks.1 hb).2

lemma mem_freeBlocks_of_mem (h : Rep s L live) (hp : p ∈ L k) : ⟨p, k⟩ ∈ freeBlocks L :=
  mem_freeBlocks.2 ⟨h.lists.bounded k p hp, hp⟩

end Rep

/-- The lists hold exactly the free descriptors of their order. -/
structure Listed (s : PhysMem) (L : ℕ → List ℕ) : Prop where
  lists : FreeLists s L
  mem_iff : ∀ k p, p ∈ L k ↔ (s.pageArray p).flags.free = true ∧ (s.pageArray p).order = k
  base_lt : ∀ k p, p ∈ L k → p < s.totalPhysPages
  total_le : s.totalPhysPages ≤ buddyMaxPages

/-- No list is longer than the page array. -/
lemma Listed.length_le (h : Listed s L) (k : ℕ) : (L k).length ≤ buddyMaxPages := by
  have hsub : L k ⊆ List.range s.totalPhysPages :=
    fun p hp => mem_range.2 (h.base_lt k p hp)
  have hlen := (subperm_of_subset (h.lists.nodup k) hsub).length_le
  rw [length_range] at hlen
  exact hlen.trans h.total_le

lemma Rep.toListed {live : List Block} (h : Rep s L live) : Listed s L where
  lists := h.lists
  mem_iff _ _ := h.mem_iff
  base_lt _ _ hp := h.tiles.span_subset (mem_append_left live (h.mem_freeBlocks_of_mem hp))
    (Block.base_mem_span _)
  total_le := h.total_le

/-- Only the descriptors `T` are written. -/
lemma Listed.write {L' : ℕ → List ℕ} {T : List ℕ} (h : Listed s L) (hlists : FreeLists s' L')
    (htotal : s'.totalPhysPages = s.totalPhysPages)
    (hsame : ∀ r, r ∉ T → SameAt s s' r ∧ ∀ j, r ∈ L' j ↔ r ∈ L j)
    (hwritten : ∀ r ∈ T, r < s.totalPhysPages ∧ ∀ j, r ∈ L' j ↔
      (s'.pageArray r).flags.free = true ∧ (s'.pageArray r).order = j) : Listed s' L' := by
  refine ⟨hlists, fun j r => ?_, fun j r hr => ?_, htotal.trans_le h.total_le⟩
  · by_cases hT : r ∈ T
    · exact (hwritten r hT).2 j
    · rw [(hsame r hT).2, h.mem_iff, (hsame r hT).1.flags, (hsame r hT).1.order]
  · rw [htotal]
    by_cases hT : r ∈ T
    · exact (hwritten r hT).1
    · exact h.base_lt j r (((hsame r hT).2 j).1 hr)

end Aurora.Buddy
