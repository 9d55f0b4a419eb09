import Aurora.Kernel.BuddyResidue
import Aurora.Lib.Run

/-!
# Frees that nobody should make

`free_pages` looks at the descriptor of one page frame, which says little: a block that is
allocated has its order in its first descriptor, and all other page frames of allocations and of
free blocks have the order zero there and are not marked as free (`Sound.order`). The order zero
passes the comparison of the orders. So the call is turned down for the first page frame of a
free block, and for that of an allocation whose order is not zero and too small; an inner page
frame is accepted with any order, whether it is free or allocated, and so is a single page.

An accepted call makes its whole block free. It does harm exactly if the block is not part of
one live allocation.

## Main definitions

* `Owner`, `Sound`: free blocks and allocations that share nothing, and their descriptors.
* `Sound.acceptedPfn_iff`: which calls are accepted, by what has been allocated and freed.
* `FreeSafe`, `Held.Fit`: what a call should do, and when it does.
* `freeSafe_iff_fit`: over all histories of calls.
-/

namespace Aurora.Buddy

variable {order pfn : ℕ} {own : Owner}

open Lib Function List Option Block

variable {s s' : PhysMem} {L L' : ℕ → List ℕ} {k p : ℕ}

/-! ## Owners -/

/-- Which allocation a page frame belongs to. -/
abbrev Owner := ℕ → Option ℕ

/-- The order that the descriptor of an allocated page frame has: that of the allocation in its
first page frame, and zero in the others. The allocation `a` was made with the block
`blocks[a]`. -/
def recorded (own : Owner) (blocks : List Block) (x : ℕ) : ℕ :=
  match (own x).bind (blocks[·]?) with
  | some b => if b.base = x then b.order else 0
  | none => 0

lemma recorded_of_none {blocks : List Block} {x : ℕ} (h : own x = none) :
    recorded own blocks x = 0 := by
  simp [recorded, h]

/-- No page frame is in two free blocks, or in a free block and an allocation; and what the
descriptors say about a page frame that is not the first one of a free block. -/
structure Sound (s : PhysMem) (L : ℕ → List ℕ) (own : Owner) (blocks : List Block) : Prop where
  listed : Listed s L
  nodup : (freePfns L).Nodup
  free_lt : ∀ x ∈ freePfns L, x < s.totalPhysPages
  phys : ∀ x, x ∈ freePfns L ∨ own x ≠ none → (s.pageArray x).physAddr = pfnToPhys x
  owned_lt : ∀ x, own x ≠ none → x < s.totalPhysPages
  apart : ∀ x ∈ freePfns L, own x = none
  unreserved : ∀ x, x ∈ freePfns L ∨ own x ≠ none → (s.pageArray x).flags.reserved = false
  order : ∀ x, (s.pageArray x).flags.free = false → (s.pageArray x).order = recorded own blocks x
  within : ∀ x a, own x = some a → ∃ b, blocks[a]? = some b ∧ x ∈ b.span

section

variable {blocks : List Block} (h : Sound s L own blocks)

include h

lemma Sound.rearrange (hr : Rearranged s L s' L') : Sound s' L' own blocks where
  listed := hr.listed
  nodup := hr.cover.nodup_iff.2 h.nodup
  free_lt x hx := hr.total.symm ▸ h.free_lt x (hr.cover.mem_iff.1 hx)
  phys x hx := by
    rcases hr.phys x with hkept | hnew
    · exact hkept.trans (h.phys x (hx.imp_left hr.cover.mem_iff.1))
    · exact hnew
  owned_lt x hx := hr.total.symm ▸ h.owned_lt x hx
  apart x hx := h.apart x (hr.cover.mem_iff.1 hx)
  unreserved x hx := by
    rcases hr.same x with hsame | ⟨-, hclean⟩
    · rw [hsame.flags]
      exact h.unreserved x (hx.imp_left hr.cover.mem_iff.1)
    · exact hclean.1
  order x hx := by
    rcases hr.same x with hsame | ⟨hfree, hclean⟩
    · rw [hsame.flags] at hx
      exact hsame.order.trans (h.order x hx)
    · exact (hclean.2 hx).trans (recorded_of_none (h.apart x hfree)).symm
  within := h.within

lemma Sound.mem_freeBlocks (hp : p ∈ L k) : ⟨p, k⟩ ∈ freeBlocks L :=
  Buddy.mem_freeBlocks.2 ⟨h.listed.lists.bounded k p hp, hp⟩

/-! ## Allocating -/

/-- The right half of a listed block is managed and on no list. -/
lemma Sound.half (hp : p ∈ L (k + 1)) : p + 2 ^ k < s.totalPhysPages ∧ ∀ j, p + 2 ^ k ∉ L j := by
  have hb := h.mem_freeBlocks hp
  refine ⟨h.free_lt _ (mem_freePfns.2 ⟨_, hb, half_mem_span p k⟩), fun j hj => ?_⟩
  have hpos := Nat.two_pow_pos k
  have hc := h.mem_freeBlocks hj
  have hne : (⟨p, k + 1⟩ : Block) ≠ ⟨p + 2 ^ k, j⟩ := by
    intro heq
    have := congrArg base heq
    dsimp only at this
    omega
  have : Std.Symm fun b c : Block => b.span.Disjoint c.span :=
    ⟨fun _ _ hdisj _ hx hy => hdisj hy hx⟩
  exact (nodup_flatMap.1 h.nodup).2.forall hb hc hne (half_mem_span p k)
    (base_mem_span _)

omit h in
lemma physKept_splitPage (s : PhysMem) (p k : ℕ) : PhysKept s (splitPage s p k) :=
  physKept_modifyPage s p (.inr rfl)

lemma Sound.buddySplit (hhead : (L (k + 1)).head? = some p) (hk : k + 1 ≤ maxOrder) :
    ∃ s' L', Buddy.buddySplit s (k + 1) = some (s', some p) ∧ (L' k).head? = some (p + 2 ^ k) ∧
      Rearranged s L s' L' := by
  have hp := mem_of_head? hhead
  obtain ⟨hlt, hout⟩ := h.half hp
  obtain ⟨s', L', K, hsplit, hm⟩ := buddySplit_lists h.listed.lists (h.listed.length_le _) hhead
    hk hout hlt
  obtain ⟨s1, hsame1, hsame2⟩ := hm.descr
  have htotal : s'.totalPhysPages = s.totalPhysPages := hsame2.total.trans hsame1.total
  have hkmax : k ≤ maxOrder := by omega
  have hpos := Nat.two_pow_pos k
  have hsame : ∀ r, r ∉ [p, p + 2 ^ k] → SameAt s s' r := by
    intro r hr
    simp only [mem_cons, not_mem_nil, or_false, not_or] at hr
    exact ((hsame1.sameAt r).trans (.splitPage s1 k hr.1)).trans
      ((SameAt.splitPage _ k hr.2).trans (hsame2.sameAt r))
  have hflags : ∀ r ∈ [p, p + 2 ^ k], (s'.pageArray r).flags = { free := true } ∧
      Descr s' true ⟨r, k⟩ := by
    intro r hr
    rw [hsame2.flags]
    rcases mem_pair.1 hr with rfl | rfl
    · have hother : SameAt (splitPage s1 r k) (splitPage (splitPage s1 r k) (r + 2 ^ k) k) r :=
        .splitPage _ k (by omega)
      exact ⟨hother.flags.trans (flags_splitPage s1 r k),
        ((descr_splitPage s1 r hkmax).congr hother).congr (hsame2.sameAt r)⟩
    · exact ⟨flags_splitPage _ _ k, (descr_splitPage _ _ hkmax).congr (hsame2.sameAt _)⟩
  refine ⟨s', L', hsplit, hm.head, h.listed.write (T := [p, p + 2 ^ k]) hm.lists htotal
    (fun r hr => ?_) (fun r hr => ?_), htotal, ?_, ?_, fun r => ?_⟩
  · refine ⟨hsame r hr, fun j => ?_⟩
    simp only [mem_cons, not_mem_nil, or_false, not_or] at hr
    rw [hm.mem_iff, or_iff_right fun heq => heq.1.elim hr.1 hr.2]
    exact and_iff_left hr.1
  · obtain ⟨-, hd⟩ := hflags r hr
    refine ⟨?_, fun j => ?_⟩
    · rcases mem_pair.1 hr with rfl | rfl
      · exact h.listed.base_lt _ _ hp
      · exact hlt
    · rw [hm.mem_iff, hd.free, hd.order, or_iff_left]
      · exact ⟨fun hj => ⟨rfl, hj.2.symm⟩, fun hj => ⟨mem_pair.1 hr, hj.2.symm⟩⟩
      · rintro ⟨hj, hne⟩
        exact hout j ((mem_pair.1 hr).resolve_left hne ▸ hj)
  · exact (hsame1.physKept.trans ((physKept_splitPage _ _ _).trans
      (physKept_splitPage _ _ _))).trans hsame2.physKept
  · refine (freePfns_perm hm.after).trans (List.Perm.trans ?_ (freePfns_perm hm.before).symm)
    simp only [flatMap_cons, span_succ]
    rw [← append_assoc]
    exact perm_append_comm.append_right _
  · by_cases hr : r ∈ [p, p + 2 ^ k]
    · refine .inr ⟨?_, by simp [Clean, (hflags r hr).1]⟩
      rcases mem_pair.1 hr with rfl | rfl
      · exact h.listed.mem_freePfns hp
      · exact mem_freePfns.2 ⟨_, h.mem_freeBlocks hp, half_mem_span p k⟩
    · exact .inl (hsame r hr)

lemma Sound.splitDown {steps : ℕ} (hhead : (L (order + steps)).head? = some p)
    (hmax : order + steps ≤ maxOrder) :
    ∃ s' L' q, Buddy.splitDown order steps s = some (s', true) ∧ (L' order).head? = some q ∧
      Rearranged s L s' L' := by
  induction steps generalizing s L p with
  | zero => exact ⟨s, L, p, rfl, hhead, .refl h.listed⟩
  | succ steps ih =>
    obtain ⟨_, _, hsplit, hhead1, h1⟩ := h.buddySplit (k := order + steps) hhead hmax
    obtain ⟨s', L', q, hrun, hhead', h'⟩ := ih (h.rearrange h1) hhead1 (by omega)
    exact ⟨s', L', q, by simp [Buddy.splitDown, hsplit, hrun], hhead', h1.trans h'⟩

omit h in
/-- The page frames of a block get an owner, or lose theirs. -/
def setOwner (own : Owner) (b : Block) (a : Option ℕ) : Owner :=
  fun x => if x ∈ b.span then a else own x

omit h in
lemma setOwner_of_mem {b : Block} {x : ℕ} (a : Option ℕ) (hx : x ∈ b.span) :
    setOwner own b a x = a :=
  if_pos hx

omit h in
lemma setOwner_of_notMem {b : Block} {x : ℕ} (a : Option ℕ) (hx : x ∉ b.span) :
    setOwner own b a x = own x :=
  if_neg hx

/-- A new allocation is recorded in its first page frame. -/
lemma Sound.recorded_setOwner (b : Block) (x : ℕ) :
    recorded (setOwner own b (some blocks.length)) (blocks ++ [b]) x =
      if x ∈ b.span then if b.base = x then b.order else 0 else recorded own blocks x := by
  split
  next hx => simp [recorded, setOwner_of_mem _ hx]
  next hx =>
    unfold recorded
    rw [setOwner_of_notMem _ hx]
    cases hown : own x with
    | none => rfl
    | some a =>
      obtain ⟨c, hc, -⟩ := h.within x a hown
      have hlt := (List.getElem?_eq_some_iff.1 hc).1
      simp [List.getElem?_append_left hlt]

/-- The first block of a list goes to a new owner. -/
lemma Sound.takeHead (hhead : (L order).head? = some p) :
    ∃ s' L', Buddy.takeHead s order = some (s', some (pfnToPhys p)) ∧
      Sound s' L' (setOwner own ⟨p, order⟩ (some blocks.length)) (blocks ++ [⟨p, order⟩]) := by
  have hp := mem_of_head? hhead
  have hcover : (freePfns L).Perm ((Block.mk p order).span ++ freePfns (without L order p)) :=
    freePfns_perm (freeBlocks_without (h.listed.lists.bounded order p hp) hp)
  have hpfree := h.listed.mem_freePfns hp
  obtain ⟨s', htake, ht⟩ := takeHead_lists h.listed hhead (h.phys p (.inl hpfree))
  have hphys : ∀ r, (s'.pageArray r).physAddr = (s.pageArray r).physAddr := by
    intro r
    by_cases hr : r = p
    · rw [hr, ht.descr.physAddr, h.phys p (.inl hpfree)]
    · exact (ht.same r hr).physAddr
  have hreserved : ∀ r, (s'.pageArray r).flags.reserved = (s.pageArray r).flags.reserved := by
    intro r
    by_cases hr : r = p
    · rw [hr, ht.reserved]
    · rw [(ht.same r hr).flags]
  have hnodup := hcover.nodup_iff.1 h.nodup
  have hspan : ∀ x ∈ (Block.mk p order).span, x ∈ freePfns L :=
    fun x hx => hcover.mem_iff.2 (mem_append_left _ hx)
  have hrest : ∀ x, x ∈ freePfns (without L order p) →
      x ∈ freePfns L ∧ x ∉ (Block.mk p order).span := fun x hx =>
    ⟨hcover.mem_iff.2 (mem_append_right _ hx),
      fun hspan => (nodup_append.1 hnodup).2.2 x hspan x hx rfl⟩
  -- what is free or owned afterwards was so before
  have hbefore : ∀ x, x ∈ freePfns (without L order p) ∨
      setOwner own ⟨p, order⟩ (some blocks.length) x ≠ none → x ∈ freePfns L ∨ own x ≠ none := by
    intro x hx
    by_cases hxs : x ∈ (Block.mk p order).span
    · exact .inl (hspan x hxs)
    · rw [setOwner_of_notMem _ hxs] at hx
      exact hx.imp_left fun hx => (hrest x hx).1
  refine ⟨s', without L order p, htake, ht.listed, (nodup_append.1 hnodup).2.1, fun x hx => ?_,
    fun x hx => ?_, fun x hx => ?_, fun x hx => ?_, fun x hx => ?_, fun x hx => ?_,
    fun x a hx => ?_⟩
  · rw [ht.total]
    exact h.free_lt x (hrest x hx).1
  · rw [hphys]
    exact h.phys x (hbefore x hx)
  · rw [ht.total]
    exact (hbefore x (.inr hx)).elim (h.free_lt x) (h.owned_lt x)
  · rw [setOwner_of_notMem _ (hrest x hx).2]
    exact h.apart x (hrest x hx).1
  · rw [hreserved]
    exact h.unreserved x (hbefore x hx)
  · rw [h.recorded_setOwner]
    by_cases hxp : x = p
    · subst hxp
      rw [if_pos (base_mem_span _), if_pos rfl]
      exact ht.descr.order
    · rw [(ht.same x hxp).flags] at hx
      rw [(ht.same x hxp).order, h.order x hx]
      split
      next hxs => rw [if_neg (Ne.symm hxp), recorded_of_none (h.apart x (hspan x hxs))]
      next => rfl
  · by_cases hxs : x ∈ (Block.mk p order).span
    · rw [setOwner_of_mem _ hxs, Option.some.injEq] at hx
      exact ⟨⟨p, order⟩, by simp [← hx], hxs⟩
    · rw [setOwner_of_notMem _ hxs] at hx
      obtain ⟨b, hb, hxb⟩ := h.within x a hx
      exact ⟨b, by rw [List.getElem?_append_left (List.getElem?_eq_some_iff.1 hb).1, hb], hxb⟩

/-- **`alloc_pages`** fails without any effect, or hands out a block to a new owner. -/
lemma Sound.allocPages (order : ℕ) : Buddy.allocPages s order = some (s, none) ∨
      ∃ s' L' p, Buddy.allocPages s order = some (s', some (pfnToPhys p)) ∧
        Sound s' L' (setOwner own ⟨p, order⟩ (some blocks.length)) (blocks ++ [⟨p, order⟩]) := by
  obtain ⟨hfail, -⟩ | ⟨_, p, hmax, hhead, hrun⟩ := allocPages_cases h.listed.lists order
  · exact .inl hfail
  obtain ⟨_, _, q, hsplit, hhead1, h1⟩ := h.splitDown hhead hmax
  obtain ⟨s', L', htake, hsound⟩ := (h.rearrange h1).takeHead hhead1
  exact .inr ⟨s', L', q, by simp [hrun, hsplit, htake], hsound⟩

end

/-! ## Freeing -/

lemma acceptedPfn_eq_some {ptr : ℕ} : acceptedPfn s ptr order = some pfn ↔
    (order ≤ maxOrder ∧ physToPfn ptr = some pfn ∧ pfn < s.totalPhysPages) ∧
      (s.pageArray pfn).flags.reserved = false ∧ (s.pageArray pfn).flags.free = false ∧
      (order ≤ (s.pageArray pfn).order ∨ (s.pageArray pfn).order = 0) := by
  have hnull : physToPfn 0 = none := rfl
  unfold acceptedPfn
  by_cases hcheck : ptr = 0 ∨ order > maxOrder
  · rw [if_pos hcheck]
    refine iff_of_false nofun fun h => ?_
    rcases hcheck with rfl | hlarge
    · rw [hnull] at h
      cases h.1.2.1
    · exact absurd h.1.1 (not_le.2 hlarge)
  rw [if_neg hcheck]
  have horder : order ≤ maxOrder := by omega
  cases hpfn : physToPfn ptr with
  | none => simp
  | some x =>
    dsimp only
    split
    next hbad =>
      refine iff_of_false nofun ?_
      rintro ⟨⟨-, hx, hlt⟩, hres, hfree, hcmp⟩
      cases hx
      simp only [hres, hfree, Bool.false_eq_true, false_or] at hbad
      omega
    next hgood =>
      push Not at hgood
      refine ⟨fun hx => ?_, fun h => h.1.2.1⟩
      cases hx
      exact ⟨⟨horder, rfl, hgood.1⟩, by simpa using hgood.2.1, by simpa using hgood.2.2.1, by
        have := hgood.2.2.2
        omega⟩

/-- **An accepted call** returns, and the page frames of its block become free, once more if
they were free. -/
lemma Listed.freePages {ptr : ℕ} (h : Listed s L) (hacc : acceptedPfn s ptr order = some pfn) :
    ∃ s' L', Buddy.freePages s ptr order = some s' ∧ Listed s' L' ∧
      s'.totalPhysPages = s.totalPhysPages ∧ PhysKept s s' ∧
      (freePfns L').Perm ((Block.mk pfn order).span ++ freePfns L) := by
  obtain ⟨⟨horder, -, hlt⟩, -, hfree, -⟩ := acceptedPfn_eq_some.1 hacc
  have hadded := h.addFree hlt hfree horder
  have hphys : PhysKept s (Buddy.addFree s pfn order) :=
    fun x => .inl (physAddr_addFree s pfn order x)
  obtain ⟨s', r, L', hmerge, hr, -⟩ := hadded.buddyMerge (k := order) (p := pfn) (by simp)
  refine ⟨s', L', ?_, hr.listed, hr.total, hphys.trans hr.phys,
    hr.cover.trans (freePfns_perm (freeBlocks_add horder))⟩
  rw [freePages_eq, hacc]
  simp [hmerge]

/-- What a call of `free_pages` should come to: nothing, or a block of the allocation around
the pointer becomes free; and nothing that is free overlaps. -/
def FreeSafe (s : PhysMem) (own : Owner) (ptr order : ℕ) : Prop :=
  ∃ s' L L', freePages s ptr order = some s' ∧ FreeLists s L ∧ FreeLists s' L' ∧
    (freePfns L').Nodup ∧
    (∀ x ∈ freePfns L', ∀ a, own x = some a → (physToPfn ptr).bind own = some a) ∧
    (s' = s ∨ ∃ pfn a b, physToPfn ptr = some pfn ∧ pfn ∈ Block.span b ∧
      (∀ x ∈ b.span, own x = some a) ∧ ∀ x, x ∈ freePfns L' ↔ x ∈ b.span ∨ x ∈ freePfns L)

lemma FreeLists.unique (h : FreeLists s L) (h' : FreeLists s L') : L = L' :=
  funext fun k => (h.isList k).unique (h'.isList k)

variable {ptr : ℕ} {blocks : List Block}

/-- **Which calls are accepted**: with a valid order, for a managed page frame that belongs to
nobody, is not reserved and is not the first one of a free block; or for one that is allocated,
unless it is the first one of its allocation and the order is larger than the one of the
allocation, which is not zero. -/
lemma Sound.acceptedPfn_iff (h : Sound s L own blocks) {x : ℕ} :
    acceptedPfn s ptr order = some x ↔
      (order ≤ maxOrder ∧ physToPfn ptr = some x ∧ x < s.totalPhysPages) ∧
      match own x with
      | none => (s.pageArray x).flags.reserved = false ∧ ∀ k, x ∉ L k
      | some a => ¬ ∃ b, blocks[a]? = some b ∧ b.base = x ∧ 0 < b.order ∧ b.order < order := by
  rw [acceptedPfn_eq_some]
  refine and_congr_right fun _ => ?_
  have hlisted : (s.pageArray x).flags.free = true ↔ ∃ k, x ∈ L k := by
    simp [h.listed.mem_iff]
  cases hown : own x with
  | none =>
    refine and_congr_right fun _ => ?_
    rw [← Bool.not_eq_true, hlisted, not_exists]
    refine and_iff_left_of_imp fun hout => .inr ?_
    have hfree : (s.pageArray x).flags.free = false := by
      rw [← Bool.not_eq_true, hlisted]
      exact fun ⟨k, hk⟩ => hout k hk
    exact (h.order x hfree).trans (recorded_of_none hown)
  | some a =>
    have hne : own x ≠ none := by simp [hown]
    have hfree : (s.pageArray x).flags.free = false := by
      rw [← Bool.not_eq_true, hlisted]
      rintro ⟨k, hk⟩
      exact hne (h.apart x (h.listed.mem_freePfns hk))
    obtain ⟨b, hb, -⟩ := h.within x a hown
    rw [and_iff_right (h.unreserved x (.inr hne)), and_iff_right hfree, h.order x hfree]
    simp only [recorded, hown, Option.bind_some, hb, Option.some.injEq, exists_eq_left']
    split <;> omega

/-- The block of an allocation becomes free, before it is merged. -/
lemma Sound.addFree {a : ℕ} (h : Sound s L own blocks) (horder : order ≤ maxOrder)
    (hfit : ∀ x ∈ (Block.mk pfn order).span, own x = some a) :
    Sound (Buddy.addFree s pfn order) (update L order (pfn :: L order))
      (setOwner own ⟨pfn, order⟩ none) blocks := by
  have hcover : (freePfns (update L order (pfn :: L order))).Perm
      ((Block.mk pfn order).span ++ freePfns L) := freePfns_perm (freeBlocks_add horder)
  have hmem : ∀ x, x ∈ freePfns (update L order (pfn :: L order)) ↔
      x ∈ (Block.mk pfn order).span ∨ x ∈ freePfns L := fun x => hcover.mem_iff.trans mem_append
  have hown := hfit pfn (base_mem_span _)
  have hfree : (s.pageArray pfn).flags.free = false := by
    rw [← Bool.not_eq_true]
    intro hfree
    have hlisted := (h.listed.mem_iff (s.pageArray pfn).order pfn).2 ⟨hfree, rfl⟩
    simp [h.apart pfn (h.listed.mem_freePfns hlisted)] at hown
  -- what is free or owned afterwards was so before
  have hbefore : ∀ x, x ∈ freePfns (update L order (pfn :: L order)) ∨
      setOwner own ⟨pfn, order⟩ none x ≠ none → x ∈ freePfns L ∨ own x ≠ none := by
    intro x hx
    by_cases hxs : x ∈ (Block.mk pfn order).span
    · exact .inr (by simp [hfit x hxs])
    · rwa [setOwner_of_notMem _ hxs, hmem, or_iff_right hxs] at hx
  have hlt : ∀ x, x ∈ freePfns L ∨ own x ≠ none → x < s.totalPhysPages :=
    fun x hx => hx.elim (h.free_lt x) (h.owned_lt x)
  refine ⟨h.listed.addFree (hlt pfn (.inr (by simp [hown]))) hfree horder, ?_,
    fun x hx => hlt x (hbefore x (.inl hx)), fun x hx => ?_,
    fun x hx => hlt x (hbefore x (.inr hx)), fun x hx => ?_, fun x hx => ?_, fun x hx => ?_,
    fun x b hx => ?_⟩
  · refine hcover.nodup_iff.2 (nodup_append.2 ⟨nodup_range', h.nodup, ?_⟩)
    rintro x hx y hy rfl
    have hown := hfit x hx
    simp [h.apart x hy] at hown
  · rw [physAddr_addFree]
    exact h.phys x (hbefore x hx)
  · by_cases hxs : x ∈ (Block.mk pfn order).span
    · exact setOwner_of_mem _ hxs
    · rw [setOwner_of_notMem _ hxs]
      exact h.apart x (((hmem x).1 hx).resolve_left hxs)
  · have hold := h.unreserved x (hbefore x hx)
    by_cases hxp : x = pfn
    · rw [hxp, flags_addFree]
      rwa [hxp] at hold
    · rwa [(sameAt_addFree hxp).flags]
  · by_cases hxp : x = pfn
    · simp [hxp, flags_addFree] at hx
    rw [(sameAt_addFree hxp).flags] at hx
    rw [(sameAt_addFree hxp).order, h.order x hx]
    by_cases hxs : x ∈ (Block.mk pfn order).span
    · -- an inner page frame of the block is not the first one of the allocation
      rw [recorded_of_none (setOwner_of_mem _ hxs)]
      obtain ⟨b, hb, hpfn⟩ := h.within pfn a hown
      have hle := (mem_span.1 hpfn).1
      have hlt := (mem_span.1 hxs).1
      have hne : b.base ≠ x := by
        dsimp only at hlt
        omega
      simp [recorded, hfit x hxs, hb, hne]
    · rw [recorded, recorded, setOwner_of_notMem _ hxs]
  · by_cases hxs : x ∈ (Block.mk pfn order).span
    · simp [setOwner_of_mem _ hxs] at hx
    · rw [setOwner_of_notMem _ hxs] at hx
      exact h.within x b hx

/-- A call whose block is part of one live allocation. -/
lemma Sound.freePages {a : ℕ} (h : Sound s L own blocks)
    (hacc : acceptedPfn s ptr order = some pfn)
    (hfit : ∀ x ∈ (Block.mk pfn order).span, own x = some a) :
    FreeSafe s own ptr order ∧ ∃ s' L', Buddy.freePages s ptr order = some s' ∧
      Sound s' L' (setOwner own ⟨pfn, order⟩ none) blocks := by
  obtain ⟨⟨horder, hpfn, -⟩, -⟩ := acceptedPfn_eq_some.1 hacc
  have hadded := h.addFree horder hfit
  obtain ⟨s', _, L', hmerge, hr, -⟩ := hadded.listed.buddyMerge (k := order) (p := pfn) (by simp)
  have hsound := hadded.rearrange hr
  have hfree : Buddy.freePages s ptr order = some s' := by
    rw [freePages_eq, hacc]
    simp [hmerge]
  have hmem : ∀ x, x ∈ freePfns L' ↔ x ∈ (Block.mk pfn order).span ∨ x ∈ freePfns L := fun x =>
    (hr.cover.trans (freePfns_perm (freeBlocks_add horder))).mem_iff.trans mem_append
  refine ⟨⟨s', L, L', hfree, h.listed.lists, hsound.listed.lists, hsound.nodup,
    fun x hx c hc => ?_, .inr ⟨pfn, a, ⟨pfn, order⟩, hpfn, base_mem_span _, hfit, hmem⟩⟩,
    s', L', hfree, hsound⟩
  rw [hpfn, bind_some, hfit pfn (base_mem_span _)]
  rcases (hmem x).1 hx with hx | hx
  · rw [← hfit x hx, hc]
  · simp [h.apart x hx] at hc

/-- **A safe call stays inside an allocation**: an accepted call makes its whole block free. -/
lemma Sound.fit_of_freeSafe (h : Sound s L own blocks) (hsafe : FreeSafe s own ptr order)
    (hacc : acceptedPfn s ptr order = some pfn) :
    ∃ a, ∀ x ∈ (Block.mk pfn order).span, own x = some a := by
  obtain ⟨s', L', hfree, hlisted, -, -, hcover⟩ := h.listed.freePages hacc
  obtain ⟨s1, L0, L1, hfree1, hlists0, hlists1, hnodup, -, hcase⟩ := hsafe
  cases hfree.symm.trans hfree1
  obtain rfl : L = L0 := h.listed.lists.unique hlists0
  obtain rfl : L' = L1 := hlisted.lists.unique hlists1
  have hpos := Nat.two_pow_pos order
  rcases hcase with rfl | ⟨_, a, b, -, -, hown, hmem⟩
  · -- the lists cannot be the same
    obtain rfl : L = L' := hlists0.unique hlists1
    have hlen := hcover.length_eq
    simp only [length_append, Block.span, length_range'] at hlen
    omega
  · refine ⟨a, fun x hx => ?_⟩
    have hx' : x ∈ freePfns L' := hcover.mem_iff.2 (mem_append_left _ hx)
    rcases (hmem x).1 hx' with hb | hold
    · exact hown x hb
    · exact absurd rfl ((nodup_append.1 (hcover.nodup_iff.1 hnodup)).2.2 x hx x hold)

/-- A call that is turned down is safe. -/
lemma Sound.freeSafe_of_refused (h : Sound s L own blocks) (hacc : acceptedPfn s ptr order = none) :
    FreeSafe s own ptr order := by
  refine ⟨s, L, L, by rw [freePages_eq, hacc], h.listed.lists, h.listed.lists, h.nodup,
    fun x hx a ha => ?_, .inl rfl⟩
  simp [h.apart x hx] at ha

/-! ## Histories of calls -/

/-- The allocator, the owners of the page frames, and the blocks of all allocations so far. -/
structure Held where
  mem : PhysMem
  own : Owner
  blocks : List Block

/-- One call, with any pointer and any order. -/
def Held.step (r : Held) : Op → Option Held
  | .alloc order => do
    let (mem, ptr) ← allocPages r.mem order
    match ptr with
    | none => some { r with mem }
    | some ptr =>
      let b : Block := ⟨(ptr - physMemBase) / pageSize, order⟩
      some { mem, own := setOwner r.own b (some r.blocks.length), blocks := r.blocks ++ [b] }
  | .free ptr order => do
    let mem ← freePages r.mem ptr order
    match acceptedPfn r.mem ptr order with
    | none => some { r with mem }
    | some pfn => some { r with mem, own := setOwner r.own ⟨pfn, order⟩ none }

/-- What a call should come to. -/
def Held.Safe (r : Held) : Op → Prop
  | .alloc order => (allocPages r.mem order).isSome
  | .free ptr order => FreeSafe r.mem r.own ptr order

/-- What is asked of the calls: a `free_pages` with a valid order of a managed page frame that
belongs to nobody is for a reserved one or the first one of a free block; and one of a page
frame of a live allocation is for a block of page frames that all belong to this allocation, or
it is for the first one, with an order above the one of the allocation, which is not zero. -/
def Held.Fit (r : Held) : Op → Prop
  | .alloc _ => True
  | .free ptr order => order ≤ maxOrder → ∀ x, physToPfn ptr = some x →
    x < r.mem.totalPhysPages → match r.own x with
      | none => (r.mem.pageArray x).flags.reserved = true ∨ ∃ L k, FreeLists r.mem L ∧ x ∈ L k
      | some a => (∃ b, r.blocks[a]? = some b ∧ b.base = x ∧ 0 < b.order ∧ b.order < order) ∨
        ∀ y ∈ (Block.mk x order).span, r.own y = some a

/-- The calls that are fit are those that are turned down and those inside an allocation. -/
lemma Sound.fit_iff {r : Held} (h : Sound r.mem L r.own r.blocks) :
    r.Fit (.free ptr order) ↔ ∀ pfn, acceptedPfn r.mem ptr order = some pfn →
      ∃ a, ∀ x ∈ (Block.mk pfn order).span, r.own x = some a := by
  constructor
  · intro hfit x hacc
    obtain ⟨⟨horder, hx, hlt⟩, haccepted⟩ := h.acceptedPfn_iff.1 hacc
    have hcase := hfit horder x hx hlt
    cases hown : r.own x with
    | none =>
      rw [hown] at hcase haccepted
      rcases hcase with hres | ⟨L', k, hL, hk⟩
      · simp [haccepted.1] at hres
      · rw [hL.unique h.listed.lists] at hk
        exact absurd hk (haccepted.2 k)
    | some a =>
      rw [hown] at hcase haccepted
      exact ⟨a, hcase.resolve_left haccepted⟩
  · intro hall horder x hx hlt
    have hin : acceptedPfn r.mem ptr order = some x →
        ∀ y ∈ (Block.mk x order).span, r.own y = r.own x := fun hacc => by
      obtain ⟨a, ha⟩ := hall x hacc
      intro y hy
      rw [ha y hy, ha x (base_mem_span _)]
    have hiff : acceptedPfn r.mem ptr order = some x ↔ _ := h.acceptedPfn_iff
    cases hown : r.own x with
    | none =>
      rw [hown] at hiff
      by_contra hbad
      push Not at hbad
      obtain ⟨a, ha⟩ := hall x (hiff.2 ⟨⟨horder, hx, hlt⟩, by simpa using hbad.1,
        fun k => hbad.2 L k h.listed.lists⟩)
      have := ha x (base_mem_span _)
      simp [hown] at this
    | some a =>
      rw [hown] at hiff hin
      by_cases hdown : ∃ b, r.blocks[a]? = some b ∧ b.base = x ∧ 0 < b.order ∧ b.order < order
      · exact .inl hdown
      · exact .inr (hin (hiff.2 ⟨⟨horder, hx, hlt⟩, hdown⟩))

lemma Sound.safe_iff {r : Held} (h : ∃ L, Sound r.mem L r.own r.blocks) (op : Op) :
    r.Safe op ↔ r.Fit op := by
  obtain ⟨L, h⟩ := h
  cases op with
  | alloc order =>
    refine iff_of_true ?_ trivial
    rcases h.allocPages order with hfail | ⟨_, _, p, halloc, -⟩
    · simp [Held.Safe, hfail]
    · simp [Held.Safe, halloc]
  | free ptr order =>
    rw [h.fit_iff]
    refine ⟨fun hsafe _ => h.fit_of_freeSafe hsafe, fun hfit => ?_⟩
    cases hacc : acceptedPfn r.mem ptr order with
    | none => exact h.freeSafe_of_refused hacc
    | some pfn =>
      obtain ⟨a, ha⟩ := hfit pfn hacc
      exact (h.freePages hacc ha).1

lemma Sound.step {r : Held} (h : ∃ L, Sound r.mem L r.own r.blocks) {op : Op} (hfit : r.Fit op) :
    ∃ L, Sound (exec Held.step r op).mem L (exec Held.step r op).own
      (exec Held.step r op).blocks := by
  obtain ⟨L, h⟩ := h
  cases op with
  | alloc order =>
    rcases h.allocPages order with hfail | ⟨s', L', p, halloc, hsound⟩
    · exact ⟨L, by simpa [exec, Held.step, hfail] using h⟩
    · refine ⟨L', ?_⟩
      have hp : (pfnToPhys p - physMemBase) / pageSize = p := by simp [pfnToPhys, pageSize]
      simpa [exec, Held.step, halloc, hp] using hsound
  | free ptr order =>
    cases hacc : acceptedPfn r.mem ptr order with
    | none =>
      have hfree : Buddy.freePages r.mem ptr order = some r.mem := by rw [freePages_eq, hacc]
      exact ⟨L, by simpa [exec, Held.step, hfree, hacc] using h⟩
    | some pfn =>
      obtain ⟨a, ha⟩ := h.fit_iff.1 hfit pfn hacc
      obtain ⟨-, s', L', hfree, hsound⟩ := h.freePages hacc ha
      exact ⟨L', by simpa [exec, Held.step, hfree, hacc] using hsound⟩

/-- **Bad frees.** In a history of calls from a sound state without allocations, with any
pointers and orders, all calls are safe exactly if each `free_pages` is fit. -/
theorem freeSafe_iff_fit (h : Sound s L (fun _ => none) []) (ops : List Op) :
    Along Held.step Held.Safe ⟨s, fun _ => none, []⟩ ops ↔
      Along Held.step Held.Fit ⟨s, fun _ => none, []⟩ ops :=
  along_congr (I := fun r => ∃ L, Sound r.mem L r.own r.blocks)
    (fun _ op hr => Sound.safe_iff hr op) (fun _ _ hr hfit => Sound.step hr hfit) ⟨L, h⟩ ops

/-! ## Boot -/

/-- A represented state without allocations. -/
lemma Rep.sound (h : Rep s L [])
    (hphys : ∀ x ∈ freePfns L, (s.pageArray x).physAddr = pfnToPhys x)
    (hclean : ∀ x, (s.pageArray x).flags.free = false → (s.pageArray x).order = 0) :
    Sound s L (fun _ => none) [] where
  listed := h.toListed
  nodup := by
    have hnodup := h.tiles.nodup
    rw [append_nil] at hnodup
    exact (nodup_append.1 hnodup).1
  free_lt x hx := ((h.covered_iff x).1 (mem_freePfns.1 hx)).1
  phys x hx := hphys x (hx.resolve_right fun hne => hne rfl)
  owned_lt x hx := absurd rfl hx
  apart _ _ := rfl
  unreserved x hx := by
    obtain ⟨hlt, hres, -⟩ := (h.covered_iff x).1
      (mem_freePfns.1 (hx.resolve_right fun hne => hne rfl))
    simpa [reservedPfns, hlt] using hres
  order x hx := hclean x hx
  within x a hx := nomatch hx

/-- **Boot** builds a sound state: what is managed and not reserved is free. -/
lemma buildBuddy_sound {ram : ℕ} (hram : ram ≤ MemDetect.ramCap) :
    ∃ s L, buildBuddy ram = some s ∧ Rep s L [] ∧ Sound s L (fun _ => none) [] ∧
      ∀ x, x ∈ freePfns L ↔ x < ram / pageSize ∧ bootReserved (ram / pageSize) x = false := by
  obtain ⟨s0, done, hboot, hrep0, htotal, hreserved, horder⟩ := buildBuddy_listed hram
  obtain ⟨s, L, hs, hrep, hmem, hphys⟩ := hrep0.buddyCoalesceAll
  obtain ⟨_, _, hs', hr⟩ := hrep0.toListed.buddyCoalesceAll
  cases hs'.symm.trans hs
  have hcover : ∀ x, x ∈ freePfns L ↔
      ∃ d ∈ freeBlocks (update (fun _ => []) 0 done), x ∈ d.span := by
    intro x
    rw [mem_freePfns, hrep.covered_iff, hrep0.covered_iff, hmem.total, hmem.reserved]
  refine ⟨_, L, hboot.trans hs, hrep, hrep.sound (fun x hx => ?_) (fun x hx => ?_), fun x => ?_⟩
  · -- the page frames have been listed one by one
    obtain ⟨d, hd, hxd⟩ := (hcover x).1 hx
    obtain ⟨p, -, rfl⟩ := mem_map.1 ((freeBlocks_order_zero done).mem_iff.1 hd)
    obtain rfl : x = p := by simpa [Block.span] using hxd
    have hold := (hrep0.free_descr _ hd).physAddr
    exact (hphys x).elim (fun hkept => hkept.trans hold) id
  · rcases hr.same x with hsame | ⟨-, hclean⟩
    · exact hsame.order.trans (horder x)
    · exact hclean.2 hx
  · rw [hcover, hrep0.covered_iff, htotal, reservedPfns, htotal]
    simp only [mem_filter, mem_range, hreserved, not_and, Bool.not_eq_true,
      not_mem_nil, false_imp_iff, implies_true, and_true]
    exact ⟨fun h => ⟨h.1, h.2 h.1⟩, fun h => ⟨h.1, fun _ => h.2⟩⟩

lemma physMemInit_sound {mem : MemDetect.Memory} {mbInfo : Option ℕ} {fuel ram : ℕ}
    (h : MemDetect.totalRam mem mbInfo fuel = some ram) :
    ∃ s L, physMemInit mem mbInfo fuel = some s ∧ Rep s L [] ∧ Sound s L (fun _ => none) [] ∧
      ∀ x, x ∈ freePfns L ↔ x < ram / pageSize ∧ bootReserved (ram / pageSize) x = false := by
  obtain ⟨s, L, hs, hrest⟩ := buildBuddy_sound (MemDetect.totalRam_le h)
  exact ⟨s, L, by simp [physMemInit, h, hs], hrest⟩

/-- A page is allocated and freed, twice. -/
theorem freeSafe_iff_fit_onePage :
    Along Held.step Held.Safe ⟨onePage, fun _ => none, []⟩
      [.alloc 0, .free physMemBase 0, .free physMemBase 0] := by
  have hsound : Sound onePage _ (fun _ => none) [] := rep_onePage.sound (fun x hx => by
    rw [freePfns, freeBlocks_onePage] at hx
    obtain rfl : x = 0 := by simpa [Block.span] using hx
    rfl) (fun x _ => by unfold onePage; dsimp only; split <;> rfl)
  have hpfn : physToPfn physMemBase = some 0 := by decide
  have hown : (exec Held.step ⟨onePage, fun _ => none, []⟩ (.alloc 0)).own 0 = some 0 := by
    decide +kernel
  have hfit : Held.Fit (exec Held.step ⟨onePage, fun _ => none, []⟩ (.alloc 0))
      (.free physMemBase 0) := by
    intro _ x hx _
    cases hpfn.symm.trans hx
    rw [hown]
    refine .inr fun y hy => ?_
    obtain rfl : y = 0 := by simpa [Block.span] using hy
    exact hown
  refine (freeSafe_iff_fit hsound _).2 ⟨trivial, hfit, fun _ x hx _ => ?_, trivial⟩
  cases hpfn.symm.trans hx
  -- the page is the first one of a free block again
  obtain ⟨L, hL⟩ := Sound.step
    (Sound.step ⟨_, hsound⟩ (show Held.Fit _ (.alloc 0) from trivial)) hfit
  have hnone : (exec Held.step (exec Held.step ⟨onePage, fun _ => none, []⟩ (.alloc 0))
      (.free physMemBase 0)).own 0 = none := by decide +kernel
  rw [hnone]
  refine .inr ⟨L, 0, hL.listed.lists, (hL.listed.mem_iff 0 0).2 ?_⟩
  decide +kernel

/-- After a boot with 64 MiB, one page is allocated and thirty-two are freed. -/
theorem not_freeSafe_booted :
    ∃ s L ptr, physMemInit (fun _ => 0) none 0 = some s ∧ Sound s L (fun _ => none) [] ∧
      ¬ Along Held.step Held.Safe ⟨s, fun _ => none, []⟩ [.alloc 0, .free ptr 5] := by
  have hram : MemDetect.totalRam (fun _ => 0) none 0 = some (64 * 1024 * 1024) := rfl
  obtain ⟨s, L, hboot, hrep, hsound, hfree⟩ := physMemInit_sound hram
  -- the first page frame behind the kernel is free, so the allocation succeeds
  have hsome : ∃ b ∈ freeBlocks L, 512 ∈ b.span := mem_freePfns.1 ((hfree 512).2 (by decide))
  obtain ⟨s1, L1, b, halloc, horder, hnew⟩ : ∃ s' L' b, allocPages s 0 =
      some (s', some (pfnToPhys b.base)) ∧ b.order = 0 ∧ Allocated s L [] b s' L' := by
    refine (allocPages_spec hrep 0).resolve_left fun hfail => ?_
    obtain ⟨b, hb, -⟩ := hsome
    exact absurd (hfail.2 b hb) (Nat.not_lt_zero _)
  refine ⟨s, L, pfnToPhys b.base, hboot, hsound, fun hsafe => ?_⟩
  have hbase : (pfnToPhys b.base - physMemBase) / pageSize = b.base := by
    simp [pfnToPhys, pageSize]
  have hstep : exec Held.step ⟨s, fun _ => none, []⟩ (.alloc 0) =
      ⟨s1, setOwner (fun _ => none) ⟨b.base, 0⟩ (some 0), [⟨b.base, 0⟩]⟩ := by
    simp [exec, Held.step, halloc, hbase]
  have hfit := (Sound.safe_iff (r := exec Held.step ⟨s, fun _ => none, []⟩ (.alloc 0))
    (Sound.step ⟨L, hsound⟩ trivial) (.free (pfnToPhys b.base) 5)).1 hsafe.2.1
  rw [hstep] at hfit
  have hlt := hnew.rep.tiles.span_subset (b := b) (by simp) b.base_mem_span
  have hcase := hfit (by decide) b.base (physToPfn_pfnToPhys _) hlt
  have hspan : b.base ∈ (mk b.base 0).span := base_mem_span _
  simp only [setOwner_of_mem _ hspan] at hcase
  rcases hcase with ⟨c, hc, -, hpos, -⟩ | hall
  · obtain rfl : ⟨b.base, 0⟩ = c := by simpa using hc
    exact absurd hpos (Nat.lt_irrefl 0)
  · -- the page frame behind the allocated one belongs to nobody
    have hbehind := hall (b.base + 1) (mem_span.2 ⟨Nat.le_succ _, by simp⟩)
    rw [setOwner_of_notMem _ (by simp [mem_span])] at hbehind
    cases hbehind

end Aurora.Buddy
