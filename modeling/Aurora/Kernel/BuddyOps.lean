import Aurora.Kernel.BuddyRep
import Aurora.Lib.DyadicCoalesced

/-!
# Splitting, merging, allocating and freeing

Each operation replaces some blocks by others that cover the same page frames, so
each keeps the representation invariant by `Rep.replace`. The failure branches of
`buddy_split` and `alloc_pages` are never taken from a represented state.

## Main results

* `buddySplit_spec`, `mergeOnce_spec`, `buddyMerge_spec`.
* `allocPages_spec`, `freePages_spec`.
-/

namespace Aurora.Buddy

variable {b : Block} {order r steps : ℕ} {s₁ s₂ : PhysMem}

open Lib Function List Option Block

variable {s s' s'' : PhysMem} {L : ℕ → List ℕ} {live : List Block} {k p q : ℕ}

lemma SameAt.trans (h : SameAt s s' p) (h' : SameAt s' s'' p) : SameAt s s'' p :=
  ⟨h'.flags.trans h.flags, h'.order.trans h.order, h'.physAddr.trans h.physAddr⟩

lemma SameAt.modifyPage (s : PhysMem) (f : Page → Page) (h : q ≠ p) :
    SameAt s (s.modifyPage p f) q := by
  have := pageArray_modifyPage_of_ne s f h
  exact ⟨by rw [this], by rw [this], by rw [this]⟩

/-! ## The count of used pages -/

lemma statUsedPages_listDel (h : listDel s k p = some s') : s'.statUsedPages = s.statUsedPages := by
  unfold listDel at h
  split at h
  · cases h
    rfl
  · obtain ⟨prev, -, h⟩ := bind_eq_some_iff.1 h
    cases prev <;> cases h <;> rfl

lemma statUsedPages_buddySplit {r : Option ℕ} (h : buddySplit s k = some (s', r)) :
    s'.statUsedPages = s.statUsedPages := by
  unfold buddySplit at h
  split at h
  · cases h
    rfl
  split at h
  · cases h
    rfl
  · obtain ⟨_, hdel, h⟩ := bind_eq_some_iff.1 h
    have hsame := statUsedPages_listDel hdel
    dsimp only at h
    split at h <;> cases h <;> exact hsame

lemma statUsedPages_splitDown {ok : Bool}
    (h : splitDown order steps s = some (s', ok)) : s'.statUsedPages = s.statUsedPages := by
  induction steps generalizing s with
  | zero =>
    cases h
    rfl
  | succ steps ih =>
    obtain ⟨⟨_, left⟩, hsplit, h⟩ := bind_eq_some_iff.1 h
    have hsame := statUsedPages_buddySplit hsplit
    cases left with
    | none =>
      cases h
      exact hsame
    | some _ => exact (ih h).trans hsame

lemma statUsedPages_mergeOnce {r : Option ℕ} (h : mergeOnce s p = some (s', r)) :
    s'.statUsedPages = s.statUsedPages := by
  unfold mergeOnce at h
  dsimp only at h
  split at h
  · cases h
    rfl
  split at h
  · cases h
    rfl
  split at h
  · cases h
    rfl
  split at h
  · cases h
    rfl
  · obtain ⟨_, hdel1, h⟩ := bind_eq_some_iff.1 h
    obtain ⟨_, hdel2, h⟩ := bind_eq_some_iff.1 h
    cases h
    exact (statUsedPages_listDel hdel2).trans (statUsedPages_listDel hdel1)

lemma statUsedPages_buddyMerge (h : buddyMerge s p = some (s', r)) :
    s'.statUsedPages = s.statUsedPages := by
  unfold buddyMerge at h
  generalize maxOrder + 1 = fuel at h
  induction fuel generalizing s p with
  | zero => cases h
  | succ fuel ih =>
    obtain ⟨⟨_, merged⟩, honce, h⟩ := bind_eq_some_iff.1 h
    have hsame := statUsedPages_mergeOnce honce
    cases merged with
    | none =>
      cases h
      exact hsame
    | some b => exact (ih h).trans hsame

/-- A page frame inside a block, other than its first, is on no list. -/
lemma Rep.not_mem_of_mem_span (h : Rep s L live) (hb : b ∈ freeBlocks L ++ live)
    (hq : q ∈ b.span) (hne : q ≠ b.base) (j : ℕ) : q ∉ L j := by
  intro hmem
  have hc := mem_append_left live (h.mem_freeBlocks_of_mem hmem)
  have heq := h.tiles.eq_of_mem_span hb hc hq (base_mem_span ⟨q, j⟩)
  exact hne (congrArg base heq).symm

/-! ## Splitting -/

lemma descr_splitPage (s : PhysMem) (p : ℕ) (hk : k ≤ maxOrder) :
    Descr (splitPage s p k) true ⟨p, k⟩ := by
  constructor <;> simp [splitPage, hk]

lemma SameAt.splitPage (s : PhysMem) (k : ℕ) (h : q ≠ p) : SameAt s (splitPage s p k) q :=
  .modifyPage _ _ h

lemma FreeLists.splitPage (h : FreeLists s L) (hp : ∀ j, p ∉ L j) (k : ℕ) :
    FreeLists (splitPage s p k) L :=
  h.modifyPage hp _

lemma flags_splitPage (s : PhysMem) (p k : ℕ) :
    ((splitPage s p k).pageArray p).flags = { free := true } := by
  rw [splitPage, pageArray_modifyPage_self]

lemma half_mem_span (p k : ℕ) : p + 2 ^ k ∈ (mk p (k + 1)).span := by
  have := Nat.two_pow_pos k
  refine mem_span.2 ⟨Nat.le_add_right _ _, ?_⟩
  simp only [pow_succ]
  omega

/-- What the writes of a split do to the blocks, between a removal from a list and the
additions to another one. -/
lemma replacement_split (h1 : SameDescr s s₁)
    (h2 : SameDescr (splitPage (splitPage s₁ p k) (p + 2 ^ k) k) s₂) (hk : k ≤ maxOrder) :
    Replacement s s₂ [⟨p, k + 1⟩] [] [⟨p + 2 ^ k, k⟩, ⟨p, k⟩] [] [p, p + 2 ^ k] := by
  have hne : p + 2 ^ k ≠ p := by
    have := Nat.two_pow_pos k
    omega
  have hsame := SameAt.splitPage (splitPage s₁ p k) k hne.symm
  constructor
  · intro r hr
    refine ⟨⟨p, k + 1⟩, by simp, ?_⟩
    rcases mem_pair.1 hr with rfl | rfl
    · exact base_mem_span _
    · exact half_mem_span p k
  · simp
  · intro r hr
    simp only [mem_cons, not_mem_nil, or_false, not_or] at hr
    have hwrite := (SameAt.splitPage s₁ k hr.1).trans (SameAt.splitPage _ k hr.2)
    exact ((h1.sameAt r).trans hwrite).trans (h2.sameAt r)
  · exact h2.total.trans h1.total
  · intro b hb
    rcases mem_pair.1 hb with rfl | rfl
    · exact (descr_splitPage _ _ hk).congr (h2.sameAt _)
    · exact ((descr_splitPage s₁ p hk).congr hsame).congr (h2.sameAt p)
  · simp
  · intro r hr _
    rcases mem_pair.1 hr with rfl | rfl
    · exact ⟨⟨r, k⟩, by simp, rfl⟩
    · exact ⟨⟨p + 2 ^ k, k⟩, by simp, rfl⟩
  · intro r hr
    rw [h2.flags]
    rcases mem_pair.1 hr with rfl | rfl
    · rw [hsame.flags, flags_splitPage]
    · rw [flags_splitPage]
  · intro X _ n htiles
    exact htiles.split.perm (List.Perm.swap _ _ _)

/-- What a split does to the lists. -/
structure SplitLists (s : PhysMem) (L : ℕ → List ℕ) (p k : ℕ) (s' : PhysMem) (L' : ℕ → List ℕ)
    (K : List Block) : Prop where
  lists : FreeLists s' L'
  descr : ∃ s₁, SameDescr s s₁ ∧ SameDescr (splitPage (splitPage s₁ p k) (p + 2 ^ k) k) s'
  head : (L' k).head? = some (p + 2 ^ k)
  mem_iff : ∀ j r, r ∈ L' j ↔ ((r = p ∨ r = p + 2 ^ k) ∧ j = k) ∨ (r ∈ L j ∧ r ≠ p)
  before : (freeBlocks L).Perm (⟨p, k + 1⟩ :: K)
  after : (freeBlocks L').Perm (⟨p + 2 ^ k, k⟩ :: ⟨p, k⟩ :: K)

lemma buddySplit_lists (h : FreeLists s L) (hlen : (L (k + 1)).length ≤ buddyMaxPages)
    (hhead : (L (k + 1)).head? = some p) (hk : k + 1 ≤ maxOrder) (hq : ∀ j, p + 2 ^ k ∉ L j)
    (htotal : p + 2 ^ k < s.totalPhysPages) :
    ∃ s' L' K, buddySplit s (k + 1) = some (s', some p) ∧ SplitLists s L p k s' L' K := by
  have hp : p ∈ L (k + 1) := mem_of_head? hhead
  have harea : s.freeArea (k + 1) = some p := (h.isList (k + 1)).head_eq.trans hhead
  have hkmax : k ≤ maxOrder := by omega
  have hqp : p + 2 ^ k ≠ p := by
    have := Nat.two_pow_pos k
    omega
  obtain ⟨s₁, hdel, hlists1, hsame1⟩ := listDel_spec h hp hlen
  have hqtotal : ¬ p + 2 ^ k ≥ s₁.totalPhysPages := by
    rwa [hsame1.total, not_le]
  -- the lists after the two descriptors are written and added
  have hp1 := h.not_mem_without hp
  have hq1 : ∀ j, p + 2 ^ k ∉ without L (k + 1) p j := fun j hj => hq j (mem_without hj)
  have hlists2 := (hlists1.splitPage hp1 k).splitPage hq1 k
  have hlists3 := hlists2.listAdd hp1 hkmax
  have hlists4 := hlists3.listAdd (not_mem_update_cons hqp hq1) hkmax
  refine ⟨_, _, _, ?_, hlists4, ⟨s₁, hsame1, (SameDescr.listAdd _ k p).trans
    (SameDescr.listAdd _ k _)⟩, by simp, fun j r => ?_, freeBlocks_without hk hp,
    (freeBlocks_add hkmax).trans ((freeBlocks_add hkmax).cons _)⟩
  · simp only [buddySplit, harea, hdel, Nat.add_sub_cancel, bind_eq_bind, bind_some]
    rw [if_neg (by omega), if_neg hqtotal]
  · rw [mem_update_cons, mem_update_cons, h.mem_without_iff hp]
    tauto

/-- `buddy_split` replaces the first block of a list by its two halves. -/
lemma buddySplit_spec (h : Rep s L live) (hhead : (L (k + 1)).head? = some p)
    (hk : k + 1 ≤ maxOrder) :
    ∃ s' L' K, buddySplit s (k + 1) = some (s', some p) ∧ Rep s' L' live ∧ SameMem s s' ∧
      SplitLists s L p k s' L' K := by
  have hblock := mem_append_left live (h.mem_freeBlocks_of_mem (mem_of_head? hhead))
  have hqp : p + 2 ^ k ≠ p := by
    have := Nat.two_pow_pos k
    omega
  obtain ⟨s', L', K, hsplit, hlists⟩ := buddySplit_lists h.lists (h.toListed.length_le _) hhead hk
    (h.not_mem_of_mem_span hblock (half_mem_span p k) hqp)
    (h.tiles.span_subset hblock (half_mem_span p k))
  obtain ⟨_, hsame1, hsame2⟩ := hlists.descr
  obtain ⟨hrep, hmem⟩ := h.replace (replacement_split hsame1 hsame2 (by omega)) hlists.lists
    hlists.before hlists.after (List.Perm.refl _) (List.Perm.refl _)
  exact ⟨s', L', K, hsplit, hrep, hmem, hlists⟩

/-! ## Merging -/

lemma SameAt.mergePages (s : PhysMem) (k : ℕ) (hp : r ≠ p) (hq : r ≠ q) :
    SameAt s (mergePages s p q k) r := by
  unfold Buddy.mergePages
  exact (SameAt.modifyPage s _ hp).trans (SameAt.modifyPage _ _ hq)

lemma FreeLists.mergePages (h : FreeLists s L) (hp : ∀ j, p ∉ L j) (hq : ∀ j, q ∉ L j) (k : ℕ) :
    FreeLists (mergePages s p q k) L := by
  unfold Buddy.mergePages
  exact (h.modifyPage hp _).modifyPage hq _

lemma pageArray_mergePages_base (s : PhysMem) (k : ℕ) (h : p ≠ q) :
    (mergePages s p q k).pageArray p = { s.pageArray p with
        flags := { free := true }, order := k + 1, physAddr := pfnToPhys p } := by
  rw [mergePages, pageArray_modifyPage_of_ne _ _ h, pageArray_modifyPage_self]

lemma flags_mergePages_other (s : PhysMem) (p q k : ℕ) :
    ((mergePages s p q k).pageArray q).flags = {} := by
  rw [mergePages, pageArray_modifyPage_self]

/-- What the writes of a merge do to the blocks. -/
lemma replacement_merge (h1 : SameDescr s s₁)
    (h2 : SameDescr (mergePages s₁ p (p + 2 ^ k) k) s₂) (hk : k + 1 ≤ maxOrder)
    (hp : 2 ^ (k + 1) ∣ p) :
    Replacement s s₂ [⟨p, k⟩, ⟨p + 2 ^ k, k⟩] [] [⟨p, k + 1⟩] [] [p, p + 2 ^ k] := by
  have hne : p ≠ p + 2 ^ k := by
    omega
  have hbase := pageArray_mergePages_base s₁ k hne
  have hother := flags_mergePages_other s₁ p (p + 2 ^ k) k
  constructor
  · intro r hr
    rcases mem_pair.1 hr with rfl | rfl
    · exact ⟨⟨r, k⟩, by simp, base_mem_span _⟩
    · exact ⟨⟨p + 2 ^ k, k⟩, by simp, base_mem_span _⟩
  · simp
  · intro r hr
    simp only [mem_cons, not_mem_nil, or_false, not_or] at hr
    exact ((h1.sameAt r).trans (.mergePages s₁ k hr.1 hr.2)).trans (h2.sameAt r)
  · exact h2.total.trans h1.total
  · intro b hb
    obtain rfl := mem_singleton.1 hb
    refine Descr.congr ?_ (h2.sameAt p)
    constructor <;> simp [hbase, hk]
  · simp
  · intro r hr hfree
    rw [h2.flags] at hfree
    rcases mem_pair.1 hr with rfl | rfl
    · exact ⟨⟨r, k + 1⟩, by simp, rfl⟩
    · simp [hother] at hfree
  · intro r hr
    rw [h2.flags]
    rcases mem_pair.1 hr with rfl | rfl
    · rw [hbase]
    · rw [hother]
  · intro X _ n htiles
    exact htiles.join hp

/-- What a merge of `x` and `y` into the block at `p` does to the lists. -/
structure MergeLists (s : PhysMem) (L : ℕ → List ℕ) (p k x y : ℕ) (s' : PhysMem)
    (L' : ℕ → List ℕ) (K : List Block) : Prop where
  lists : FreeLists s' L'
  descr : ∃ s₂, SameDescr s s₂ ∧ SameDescr (mergePages s₂ p (p + 2 ^ k) k) s'
  mem_iff : ∀ j r, r ∈ L' j ↔ (r = p ∧ j = k + 1) ∨ (r ∈ L j ∧ r ≠ x ∧ r ≠ y)
  before : (freeBlocks L).Perm (⟨x, k⟩ :: ⟨y, k⟩ :: K)
  after : (freeBlocks L').Perm (⟨p, k + 1⟩ :: K)

/-- Merging two listed buddies, in either order of removal. -/
lemma merge_lists (h : FreeLists s L) (hlen : (L k).length ≤ buddyMaxPages) (hp : p ∈ L k)
    (hq : p + 2 ^ k ∈ L k) (hk : k + 1 ≤ maxOrder) {x y : ℕ}
    (hxy : (x = p ∧ y = p + 2 ^ k) ∨ (x = p + 2 ^ k ∧ y = p)) :
    ∃ s₁ s₂ s' L' K, listDel s k x = some s₁ ∧ listDel s₁ k y = some s₂ ∧
      listAdd (mergePages s₂ p (p + 2 ^ k) k) (k + 1) p = s' ∧ MergeLists s L p k x y s' L' K := by
  have hne : p ≠ p + 2 ^ k := by
    have := Nat.two_pow_pos k
    omega
  have hx : x ∈ L k := by rcases hxy with ⟨rfl, -⟩ | ⟨rfl, -⟩ <;> assumption
  have hyx : y ∈ (L k).erase x := by
    rcases hxy with ⟨rfl, rfl⟩ | ⟨rfl, rfl⟩
    · exact (mem_erase_of_ne hne.symm).2 hq
    · exact (mem_erase_of_ne hne).2 hp
  obtain ⟨s₁, hdel1, hlists1, hsame1⟩ := listDel_spec h hx hlen
  have hy1 : y ∈ without L k x k := by rwa [without, update_self]
  have hlen1 : (without L k x k).length ≤ buddyMaxPages := by
    rw [without, update_self]
    exact (erase_sublist.length_le).trans hlen
  obtain ⟨s₂, hdel2, hlists2, hsame2⟩ := listDel_spec hlists1 hy1 hlen1
  have hout : ∀ r, r = x ∨ r = y → ∀ j, r ∉ without (without L k x) k y j := by
    rintro r (rfl | rfl) j
    · exact fun hj => h.not_mem_without hx j (mem_without hj)
    · exact hlists1.not_mem_without hy1 j
  have hpout := hout p (by omega)
  have hlists3 := (hlists2.mergePages hpout (hout (p + 2 ^ k) (by omega)) k).listAdd hpout hk
  have hkmax : k ≤ maxOrder := by omega
  refine ⟨s₁, s₂, _, _, _, hdel1, hdel2, rfl, hlists3, ⟨s₂, hsame1.trans hsame2,
    SameDescr.listAdd _ _ _⟩, fun j r => ?_, (freeBlocks_without hkmax hx).trans
    ((freeBlocks_without hkmax hy1).cons _), freeBlocks_add hk⟩
  rw [mem_update_cons, hlists1.mem_without_iff hy1, h.mem_without_iff hx]
  tauto

/-- The buddy of the block can be merged with it. -/
def Mergeable (s : PhysMem) (p k : ℕ) : Prop :=
  k < maxOrder ∧ p ^^^ 2 ^ k < s.totalPhysPages ∧
    (s.pageArray (p ^^^ 2 ^ k)).flags.free = true ∧ (s.pageArray (p ^^^ 2 ^ k)).order = k

lemma mergeOnce_of_not_mergeable (horder : (s.pageArray p).order = k)
    (h : ¬ Mergeable s p k) : mergeOnce s p = some (s, none) := by
  simp only [mergeOnce, horder, getBuddy]
  by_cases hk : k ≥ maxOrder
  · exact if_pos hk
  rw [if_neg hk]
  by_cases htotal : p ^^^ 2 ^ k ≥ s.totalPhysPages
  · rw [if_pos htotal]
  rw [if_neg htotal]
  by_cases hfree : (s.pageArray (p ^^^ 2 ^ k)).flags.free = true
  · have hborder : (s.pageArray (p ^^^ 2 ^ k)).order ≠ k :=
      fun hborder => h ⟨by omega, by omega, hfree, hborder⟩
    simp [hfree, hborder]
  · exact if_pos (by simpa using hfree)

/-- One level of `buddy_merge`, with the two listed buddies. -/
lemma mergeOnce_lists (h : FreeLists s L) (hlen : (L k).length ≤ buddyMaxPages) (hp : p ∈ L k)
    (horder : (s.pageArray p).order = k) (hmerge : Mergeable s p k) (hq : p ^^^ 2 ^ k ∈ L k) :
    ∃ s' b L' K, mergeOnce s p = some (s', some b) ∧ (b = p ∨ p = b + 2 ^ k) ∧
      p ^^^ 2 ^ k = (if b = p then b + 2 ^ k else b) ∧
      MergeLists s L b k p (p ^^^ 2 ^ k) s' L' K := by
  obtain ⟨hk, htotal, hfree, hborder⟩ := hmerge
  have hpos := Nat.two_pow_pos k
  simp only [mergeOnce, horder, getBuddy]
  rw [if_neg (by omega), if_neg (by omega)]
  simp only [hfree, hborder, Bool.not_true, Bool.false_eq_true, if_false, ne_eq, not_true_eq_false]
  rcases xor_two_pow_eq p k with hxor | ⟨q, rfl, hxor⟩
  · rw [hxor] at hq ⊢
    obtain ⟨s₁, s₂, s', L', K, hdel1, hdel2, rfl, hlists⟩ :=
      merge_lists h hlen hp hq hk (.inl ⟨rfl, rfl⟩)
    exact ⟨_, p, L', K, by simp [hdel1, hdel2, hpos], .inl rfl, by simp, hlists⟩
  · rw [hxor] at hq ⊢
    obtain ⟨s₁, s₂, s', L', K, hdel1, hdel2, rfl, hlists⟩ :=
      merge_lists h hlen hq hp hk (.inr ⟨rfl, rfl⟩)
    refine ⟨_, q, L', K, ?_, .inr rfl, ?_, hlists⟩
    · simp [hdel1, hdel2, show ¬ q + 2 ^ k < q by omega]
    · rw [if_neg (by omega)]

/-- One level of `buddy_merge`: nothing happens because the buddy is not on the list, or two
listed buddies become one. -/
lemma mergeOnce_spec (h : Rep s L live) (hp : p ∈ L k) :
    (mergeOnce s p = some (s, none) ∧ (k < maxOrder → (mk p k).buddy ∉ freeBlocks L)) ∨
      ∃ s' b L' K, mergeOnce s p = some (s', some b) ∧ Rep s' L' live ∧ SameMem s s' ∧
        b ∈ L' (k + 1) ∧ (freeBlocks L).Perm (⟨p, k⟩ :: (mk p k).buddy :: K) ∧
        (freeBlocks L').Perm (⟨b, k + 1⟩ :: K) := by
  obtain ⟨-, horder⟩ := h.mem_iff.1 hp
  by_cases hmerge : Mergeable s p k
  swap
  · refine .inl ⟨mergeOnce_of_not_mergeable horder hmerge, fun hk hmem => hmerge ?_⟩
    have hd := h.free_descr _ hmem
    have hlt := h.tiles.span_subset (mem_append_left live hmem) (base_mem_span _)
    exact ⟨hk, hlt, hd.free, hd.order⟩
  right
  have hq : p ^^^ 2 ^ k ∈ L k := h.mem_iff.2 hmerge.2.2
  have halign : 2 ^ k ∣ p :=
    h.tiles.aligned _ (mem_append_left live (h.mem_freeBlocks_of_mem hp))
  obtain ⟨s', b, L', K, honce, hb, hbuddy, hlists⟩ :=
    mergeOnce_lists h.lists (h.toListed.length_le k) hp horder hmerge hq
  obtain ⟨_, hsame1, hsame2⟩ := hlists.descr
  have hdvd : 2 ^ (k + 1) ∣ b := by
    rcases xor_two_pow_cases halign with ⟨hdvd, hxor⟩ | ⟨q, hpq, hdvd, hxor⟩
    · rcases hb with rfl | hb
      · exact hdvd
      · rw [hxor, if_neg (by omega)] at hbuddy
        omega
    · obtain rfl : b = q := by
        rcases hb with rfl | hb
        · rw [hxor, if_pos rfl] at hbuddy
          omega
        · omega
      exact hdvd
  have hbefore : (freeBlocks L).Perm (⟨b, k⟩ :: ⟨b + 2 ^ k, k⟩ :: K) := by
    refine hlists.before.trans ?_
    rw [hbuddy]
    rcases hb with rfl | rfl
    · simp
    · rw [if_neg (by omega)]
      exact List.Perm.swap _ _ _
  obtain ⟨hrep, hmem⟩ := h.replace (replacement_merge hsame1 hsame2 hmerge.1 hdvd) hlists.lists
    hbefore hlists.after (List.Perm.refl _) (List.Perm.refl _)
  exact ⟨s', b, L', K, honce, hrep, hmem, (hlists.mem_iff _ _).2 (.inl ⟨rfl, rfl⟩),
    hlists.before, hlists.after⟩

/-- What merging a listed block comes to. -/
structure Merged (s : PhysMem) (L : ℕ → List ℕ) (live : List Block) (b : Block) (s' : PhysMem)
    (r : ℕ) (L' : ℕ → List ℕ) : Prop where
  rep : Rep s' L' live
  mem : SameMem s s'
  listed : ∃ j, r ∈ L' j
  /-- Either nothing changed, or there are fewer free blocks. -/
  fewer : (s' = s ∧ L' = L ∧ r = b.base) ∨ (freeBlocks L').length < (freeBlocks L).length
  /-- If the other free blocks were coalesced, all of them are now. -/
  coalesced : ∀ K, (freeBlocks L).Perm (b :: K) → Coalesced maxOrder K →
    Coalesced maxOrder (freeBlocks L')

lemma buddyMergeFrom_spec {fuel : ℕ} (h : Rep s L live) (hp : p ∈ L k)
    (hfuel : maxOrder < k + fuel) :
    ∃ s' r L', buddyMergeFrom fuel s p = some (s', r) ∧ Merged s L live ⟨p, k⟩ s' r L' := by
  induction fuel generalizing s L p k with
  | zero =>
    have := h.lists.bounded k p hp
    omega
  | succ fuel ih =>
    rcases mergeOnce_spec h hp with ⟨hnone, hbuddy⟩ | ⟨_, b, L1, K, hsome, hrep1, hmem1, hb,
      hbefore, hafter⟩
    · refine ⟨s, p, L, by simp [buddyMergeFrom, hnone], h, .refl s, ⟨k, hp⟩,
        .inl ⟨rfl, rfl, rfl⟩, fun K hK hco => (hco.cons ?_).perm hK.symm⟩
      exact fun hlt hmem => hbuddy hlt (hK.mem_iff.2 (mem_cons_of_mem _ hmem))
    · obtain ⟨s', r, L', hrun, hmerged⟩ := ih hrep1 hb (by omega)
      have hlt : (freeBlocks L1).length < (freeBlocks L).length := by
        rw [hbefore.length_eq, hafter.length_eq]
        simp
      refine ⟨s', r, L', by simp [buddyMergeFrom, hsome, hrun], hmerged.rep,
        hmem1.trans hmerged.mem, hmerged.listed, .inr ?_, fun K' hK' hco => ?_⟩
      · rcases hmerged.fewer with ⟨-, rfl, -⟩ | hlt'
        · exact hlt
        · exact hlt'.trans hlt
      · have hrest : K'.Perm ((mk p k).buddy :: K) := (hK'.symm.trans hbefore).cons_inv
        exact hmerged.coalesced K hafter (hco.perm hrest).tail

/-- **`buddy_merge`** on a listed block returns, keeps the invariant and returns a listed
block. -/
lemma buddyMerge_spec (h : Rep s L live) (hp : p ∈ L k) :
    ∃ s' r L', buddyMerge s p = some (s', r) ∧ Merged s L live ⟨p, k⟩ s' r L' :=
  buddyMergeFrom_spec h hp (by omega)

/-! ## Allocating -/

lemma findOrder_spec (s : PhysMem) (h : maxOrder < order + steps) :
    order ≤ findOrder s steps order ∧
      (findOrder s steps order ≤ maxOrder → s.freeArea (findOrder s steps order) ≠ none) := by
  induction steps generalizing order with
  | zero =>
    refine ⟨le_rfl, fun hle => ?_⟩
    simp only [findOrder] at hle
    omega
  | succ steps ih =>
    rw [findOrder]
    split_ifs with hcond
    · obtain ⟨hle, hne⟩ := ih (show maxOrder < order + 1 + steps by omega)
      exact ⟨by omega, hne⟩
    · refine ⟨le_rfl, fun hle hnone => hcond ⟨hle, hnone⟩⟩

/-- What splitting down comes to: the block `b` is cut into the block `top` and blocks whose
buddies contain it. -/
structure Carved (L L' : ℕ → List ℕ) (b top : Block) : Prop where
  pieces : ∃ lefts K, (freeBlocks L).Perm (b :: K) ∧
    (freeBlocks L').Perm (top :: (lefts ++ K)) ∧ ∀ c ∈ lefts, top.span ⊆ c.buddy.span
  inside : top.span ⊆ b.span

/-- Splitting down to the requested order never fails. -/
lemma splitDown_spec (h : Rep s L live)
    (hhead : (L (order + steps)).head? = some p) (hmax : order + steps ≤ maxOrder) :
    ∃ s' L' q, splitDown order steps s = some (s', true) ∧ Rep s' L' live ∧ SameMem s s' ∧
      (L' order).head? = some q ∧ Carved L L' ⟨p, order + steps⟩ ⟨q, order⟩ := by
  induction steps generalizing s L p with
  | zero =>
    have hp : p ∈ L order := mem_of_head? hhead
    have hremoved : (freeBlocks L).Perm _ := freeBlocks_without hmax hp
    exact ⟨s, L, p, rfl, h, .refl s, hhead, ⟨[], _, hremoved, hremoved, by simp⟩,
      List.Subset.refl _⟩
  | succ steps ih =>
    obtain ⟨_, _, K1, hsplit, hrep1, hmem1, -, -, hhead1, -, hbefore, hafter⟩ :=
      buddySplit_spec (k := order + steps) h hhead hmax
    obtain ⟨s', L', q, hrun, hrep, hmem, hhead', ⟨lefts, K, hbefore', hafter', hlefts⟩, hinside⟩ :=
      ih hrep1 hhead1 (by omega)
    have hblock := mem_append_left live
      (h.mem_freeBlocks_of_mem (mem_of_head? hhead))
    have hleft := buddy_left (k := order + steps) (h.tiles.aligned _ hblock)
    refine ⟨s', L', q, by simp [splitDown, hsplit, hrun], hrep, hmem1.trans hmem, hhead',
      ⟨⟨p, order + steps⟩ :: lefts, K1, hbefore, ?_, ?_⟩, ?_⟩
    · -- what the right half is not cut from is the left half and the rest
      have hrest : K.Perm (⟨p, order + steps⟩ :: K1) := (hbefore'.symm.trans hafter).cons_inv
      refine hafter'.trans (List.Perm.cons _ ?_)
      exact (hrest.append_left lefts).trans perm_middle
    · intro c hc
      rcases mem_cons.1 hc with rfl | hc
      · rwa [hleft]
      · exact hlefts c hc
    · refine List.Subset.trans hinside ?_
      rw [show order + (steps + 1) = order + steps + 1 from rfl, span_succ]
      exact subset_append_right _ _

/-- A block does not start at a reserved page frame. -/
lemma Rep.unreserved (h : Rep s L live) (hb : b ∈ freeBlocks L ++ live) :
    (s.pageArray b.base).flags.reserved = false := by
  have hnot := h.tiles.not_mem_rest hb b.base_mem_span
  have hlt := h.tiles.span_subset hb b.base_mem_span
  simpa [reservedPfns, hlt] using hnot

/-- What taking the first block of a list does to the descriptors. -/
structure TakenHead (s : PhysMem) (L : ℕ → List ℕ) (order p : ℕ) (s' : PhysMem) : Prop where
  listed : Listed s' (without L order p)
  total : s'.totalPhysPages = s.totalPhysPages
  used : s'.statUsedPages = s.statUsedPages + 2 ^ order
  same : ∀ r, r ≠ p → SameAt s s' r
  descr : Descr s' false ⟨p, order⟩
  reserved : (s'.pageArray p).flags.reserved = (s.pageArray p).flags.reserved

lemma takeHead_lists (h : Listed s L) (hhead : (L order).head? = some p)
    (hphys : (s.pageArray p).physAddr = pfnToPhys p) :
    ∃ s', takeHead s order = some (s', some (pfnToPhys p)) ∧ TakenHead s L order p s' := by
  have hp : p ∈ L order := mem_of_head? hhead
  have harea : s.freeArea order = some p := (h.lists.isList order).head_eq.trans hhead
  have hlt := h.base_lt order p hp
  -- no managed block lies beyond the identity-mapped range
  have hinside : ¬ pfnToPhys p ≥ kernelPhysMax := by
    have := h.total_le
    simp only [pfnToPhys, physMemBase, pageSize, kernelPhysMax, buddyMaxPages] at *
    omega
  obtain ⟨s₁, hdel, hlists1, hsame1⟩ := listDel_spec h.lists hp (h.length_le _)
  have hphys1 : (s₁.pageArray p).physAddr = pfnToPhys p := (hsame1.physAddr p).trans hphys
  set s₂ := s₁.modifyPage p fun page =>
    { page with flags := { page.flags with free := false }, order := order, refCount := 1 } with hs2
  have hsame : ∀ r, r ≠ p → SameAt s s₂ r := fun r hr => by
    rw [hs2]
    exact (hsame1.sameAt r).trans (.modifyPage s₁ _ hr)
  have hself : s₂.pageArray p = { s₁.pageArray p with
      flags := { (s₁.pageArray p).flags with free := false }, order := order, refCount := 1 } := by
    rw [hs2, pageArray_modifyPage_self]
  have hlists2 : FreeLists s₂ (without L order p) := by
    rw [hs2]
    exact hlists1.modifyPage (h.lists.not_mem_without hp) _
  have htotal : s₂.totalPhysPages = s.totalPhysPages := by
    rw [hs2]
    exact hsame1.total
  have hlisted : Listed s₂ (without L order p) := by
    refine h.write (T := [p]) hlists2 htotal (fun r hr => ?_) (fun r hr => ?_)
    · have hrp : r ≠ p := by simpa using hr
      refine ⟨hsame r hrp, fun j => ?_⟩
      rw [h.lists.mem_without_iff hp]
      exact and_iff_left hrp
    · obtain rfl := mem_singleton.1 hr
      simp [hlt, hself, h.lists.not_mem_without hp]
  refine ⟨{ s₂ with statUsedPages := s₁.statUsedPages + 2 ^ order }, ?_,
    ⟨hlisted.lists.congr rfl rfl, hlisted.mem_iff, hlisted.base_lt, hlisted.total_le⟩, htotal,
    congrArg (· + 2 ^ order) (statUsedPages_listDel hdel),
    fun r hr => ⟨(hsame r hr).flags, (hsame r hr).order, (hsame r hr).physAddr⟩, ?_, ?_⟩
  · simp only [takeHead, harea, hdel, bind_eq_bind, bind_some, pageArray_modifyPage_self, hphys1,
      hs2]
    rw [if_neg hinside]
    rfl
  · constructor <;> simp [hself, hphys1, h.lists.bounded order p hp]
  · simp [hself, hsame1.flags]

/-- The first block of a list goes to the caller. -/
lemma takeHead_spec (h : Rep s L live) (hhead : (L order).head? = some p) :
    ∃ s' L', takeHead s order = some (s', some (pfnToPhys p)) ∧
      Rep s' L' (⟨p, order⟩ :: live) ∧ SameMem s s' ∧
      s'.statUsedPages = s.statUsedPages + 2 ^ order ∧
      (freeBlocks L).Perm (⟨p, order⟩ :: freeBlocks L') := by
  have hp : p ∈ L order := mem_of_head? hhead
  have hfree := h.mem_freeBlocks_of_mem hp
  obtain ⟨s', htake, ht⟩ := takeHead_lists h.toListed hhead (h.free_descr _ hfree).physAddr
  have hremoved := freeBlocks_without (h.lists.bounded order p hp) hp
  have hreplace : Replacement s s' [⟨p, order⟩] [] [] [⟨p, order⟩] [p] := by
    constructor
    · simpa using base_mem_span ⟨p, order⟩
    · simp
    · exact fun r hr => ht.same r (by simpa using hr)
    · exact ht.total
    · simp
    · simpa using ht.descr
    · simp [ht.descr.free]
    · simp [ht.reserved, h.unreserved (b := ⟨p, order⟩) (mem_append_left live hfree)]
    · exact fun X rest n htiles => htiles
  obtain ⟨hrep, hmem⟩ := h.replace hreplace ht.listed.lists hremoved (List.Perm.refl _)
    (List.Perm.refl _) (List.Perm.refl _)
  exact ⟨s', _, htake, hrep, hmem, ht.used, hremoved⟩

/-- A list that is not empty bounds the order that is found. -/
lemma findOrder_le {j : ℕ} (hj : s.freeArea j ≠ none) (steps : ℕ) (hle : order ≤ j) :
    findOrder s steps order ≤ j := by
  induction steps generalizing order with
  | zero => exact hle
  | succ steps ih =>
    rw [findOrder]
    split_ifs with hcond
    · refine ih (lt_of_le_of_ne hle ?_)
      rintro rfl
      exact hj hcond.2
    · exact hle

/-- `alloc_pages` finds all lists of the order and above empty, or it splits the first block
of one of them down and takes it. -/
lemma allocPages_cases (h : FreeLists s L) (order : ℕ) :
    (allocPages s order = some (s, none) ∧ ∀ j ≤ maxOrder, order ≤ j → L j = []) ∨
      ∃ steps p, order + steps ≤ maxOrder ∧ (L (order + steps)).head? = some p ∧
        allocPages s order = (splitDown order steps s).bind fun (s, ok) =>
          if ok then takeHead s order else some (s, none) := by
  unfold allocPages
  by_cases horder : order > maxOrder
  · exact .inl ⟨if_pos horder, by omega⟩
  rw [if_neg horder]
  obtain ⟨hle, hne⟩ := findOrder_spec s (show maxOrder < order + (maxOrder + 1) by omega)
  by_cases hmax : findOrder s (maxOrder + 1) order > maxOrder
  · refine .inl ⟨if_pos hmax, fun j hj hle => ?_⟩
    by_contra hlist
    rw [← List.head?_eq_none_iff, ← (h.isList j).head_eq] at hlist
    have := findOrder_le hlist (maxOrder + 1) hle
    omega
  obtain ⟨steps, hsteps⟩ := Nat.exists_eq_add_of_le hle
  rw [hsteps] at hmax hne
  obtain ⟨p, hp⟩ := ne_none_iff_exists'.1 (hne (by omega))
  refine .inr ⟨steps, p, by omega, (h.isList _).head_eq.symm.trans hp, ?_⟩
  simp [hsteps, hmax, bind_eq_bind]

/-- What a successful allocation of the block `b` comes to. -/
structure Allocated (s : PhysMem) (L : ℕ → List ℕ) (live : List Block) (b : Block) (s' : PhysMem)
    (L' : ℕ → List ℕ) : Prop where
  rep : Rep s' L' (b :: live)
  mem : SameMem s s'
  used : s'.statUsedPages = s.statUsedPages + 2 ^ b.order
  /-- The free blocks are free blocks as before and buddies of blocks that contain `b`. -/
  pieces : ∀ c ∈ freeBlocks L', c ∈ freeBlocks L ∨ b.span ⊆ c.buddy.span

/-- **`alloc_pages`** fails without any effect because no free block is large enough, or
hands out a block of the requested order. -/
lemma allocPages_spec (h : Rep s L live) (order : ℕ) :
    (allocPages s order = some (s, none) ∧ ∀ b ∈ freeBlocks L, b.order < order) ∨
      ∃ s' L' b, allocPages s order = some (s', some (pfnToPhys b.base)) ∧ b.order = order ∧
        Allocated s L live b s' L' := by
  obtain ⟨hfail, hempty⟩ | ⟨_, p, hmax, hhead, hrun⟩ := allocPages_cases h.lists order
  · refine .inl ⟨hfail, fun b hb => ?_⟩
    by_contra hlarge
    obtain ⟨hbmax, hbase⟩ := mem_freeBlocks.1 hb
    simp [hempty b.order hbmax (not_lt.1 hlarge)] at hbase
  right
  obtain ⟨_, _, q, hsplit, hrep1, hmem1, hhead1, ⟨_, K, hbefore, hafter, hlefts⟩, -⟩ :=
    splitDown_spec h hhead (by omega)
  obtain ⟨s', L', htake, hrep, hmem, hused, hremoved⟩ := takeHead_spec hrep1 hhead1
  refine ⟨s', L', ⟨q, order⟩, ?_, rfl, hrep, hmem1.trans hmem, ?_, fun c hc => ?_⟩
  · simp [hrun, hsplit, htake]
  · rw [hused, statUsedPages_splitDown hsplit]
  · have hrest := (hremoved.symm.trans hafter).cons_inv
    rcases mem_append.1 (hrest.mem_iff.1 hc) with hc | hc
    · exact .inr (hlefts c hc)
    · exact .inl (hbefore.mem_iff.2 (mem_cons_of_mem _ hc))

/-! ## Freeing -/

lemma physToPfn_pfnToPhys (p : ℕ) : physToPfn (pfnToPhys p) = some p := by
  simp [physToPfn, pfnToPhys, pageSize]

/-- The page frame that `free_pages` goes on with, unless one of its checks turns the call
down. -/
def acceptedPfn (s : PhysMem) (ptr order : ℕ) : Option ℕ :=
  if ptr = 0 ∨ order > maxOrder then none
  else
    match physToPfn ptr with
    | none => none
    | some pfn =>
      let page := s.pageArray pfn
      if pfn ≥ s.totalPhysPages ∨ page.flags.reserved ∨ page.flags.free ∨
          (order > page.order ∧ page.order ≠ 0) then none
      else some pfn

/-- The state before the merge. -/
def addFree (s : PhysMem) (pfn order : ℕ) : PhysMem :=
  releaseUsed (listAdd (s.modifyPage pfn fun page =>
    { page with flags := { page.flags with free := true }, order := order, refCount := 0 })
    order pfn) order

lemma freePages_eq (s : PhysMem) (ptr order : ℕ) :
    freePages s ptr order = match acceptedPfn s ptr order with
      | none => some s
      | some pfn => (buddyMerge (addFree s pfn order) pfn).map Prod.fst := by
  unfold freePages acceptedPfn
  by_cases hptr : ptr = 0
  · rw [if_pos hptr, if_pos (.inl hptr)]
  by_cases horder : order > maxOrder
  · rw [if_neg hptr, if_pos horder, if_pos (.inr horder)]
  rw [if_neg hptr, if_neg horder, if_neg (not_or.2 ⟨hptr, horder⟩)]
  cases physToPfn ptr with
  | none => rfl
  | some pfn =>
    dsimp only
    by_cases h1 : pfn ≥ s.totalPhysPages
    · rw [if_pos h1, if_pos (.inl h1)]
    by_cases h2 : (s.pageArray pfn).flags.reserved = true
    · rw [if_neg h1, if_pos h2, if_pos (.inr (.inl h2))]
    by_cases h3 : (s.pageArray pfn).flags.free = true
    · rw [if_neg h1, if_neg h2, if_pos h3, if_pos (.inr (.inr (.inl h3)))]
    by_cases h4 : order > (s.pageArray pfn).order ∧ (s.pageArray pfn).order ≠ 0
    · rw [if_neg h1, if_neg h2, if_neg h3, if_pos h4, if_pos (.inr (.inr (.inr h4)))]
    rw [if_neg h1, if_neg h2, if_neg h3, if_neg h4, if_neg (by tauto)]
    change (buddyMerge (addFree s pfn order) pfn).bind (fun r => some r.1) =
      (buddyMerge (addFree s pfn order) pfn).map Prod.fst
    cases buddyMerge (addFree s pfn order) pfn <;> rfl

lemma sameAt_addFree (h : r ≠ p) : SameAt s (addFree s p order) r := by
  have hsame := (SameAt.modifyPage s (fun page =>
    { page with flags := { page.flags with free := true }, order := order, refCount := 0 }) h).trans
    ((SameDescr.listAdd _ order p).sameAt r)
  exact ⟨hsame.flags, hsame.order, hsame.physAddr⟩

lemma flags_addFree (s : PhysMem) (p order : ℕ) : ((addFree s p order).pageArray p).flags =
    { (s.pageArray p).flags with free := true } := by
  refine ((SameDescr.listAdd _ order p).flags p).trans ?_
  rw [pageArray_modifyPage_self]

lemma order_addFree (s : PhysMem) (p order : ℕ) :
    ((addFree s p order).pageArray p).order = order := by
  refine ((SameDescr.listAdd _ order p).order p).trans ?_
  rw [pageArray_modifyPage_self]

lemma physAddr_addFree (s : PhysMem) (p order r : ℕ) :
    ((addFree s p order).pageArray r).physAddr = (s.pageArray r).physAddr := by
  refine ((SameDescr.listAdd _ order p).physAddr r).trans ?_
  by_cases hr : r = p
  · rw [hr, pageArray_modifyPage_self]
  · rw [pageArray_modifyPage_of_ne _ _ hr]

lemma Listed.addFree (h : Listed s L) (hlt : p < s.totalPhysPages)
    (hfree : (s.pageArray p).flags.free = false) (horder : order ≤ maxOrder) :
    Listed (addFree s p order) (update L order (p :: L order)) := by
  have hout : ∀ j, p ∉ L j := by
    intro j hj
    simp [((h.mem_iff j p).1 hj).1] at hfree
  refine h.write (T := [p]) (((h.lists.modifyPage hout _).listAdd hout horder).congr rfl rfl) rfl
    (fun r hr => ?_) (fun r hr => ?_)
  · have hrp : r ≠ p := by simpa using hr
    exact ⟨sameAt_addFree hrp, fun j => mem_update_cons.trans (or_iff_right fun heq => hrp heq.1)⟩
  · obtain rfl := mem_singleton.1 hr
    refine ⟨hlt, fun j => ?_⟩
    rw [mem_update_cons, or_iff_left (hout j), flags_addFree, order_addFree]
    simp [eq_comm]

/-- **`free_pages`** of a live block takes it from the callers and merges it. -/
lemma freePages_spec (h : Rep s L live) (hb : b ∈ live) :
    ∃ s' L', freePages s (pfnToPhys b.base) b.order = some s' ∧ Rep s' L' (live.erase b) ∧
      SameMem s s' ∧ s'.statUsedPages = (releaseUsed s b.order).statUsedPages ∧
      (Coalesced maxOrder (freeBlocks L) → Coalesced maxOrder (freeBlocks L')) := by
  have hdescr := h.live_descr b hb
  have hmem := mem_append_right (freeBlocks L) hb
  have hres := h.unreserved hmem
  have hlt := h.tiles.span_subset hmem b.base_mem_span
  have hlisted := h.toListed.addFree hlt hdescr.free hdescr.order_le
  have hadded := freeBlocks_add (p := b.base) (L := L) hdescr.order_le
  have hreplace : Replacement s (addFree s b.base b.order) [] [b] [b] [] [b.base] := by
    constructor
    · simpa using b.base_mem_span
    · simp
    · exact fun r hr => sameAt_addFree (by simpa using hr)
    · rfl
    · have hnew : Descr (addFree s b.base b.order) true b :=
        ⟨by rw [flags_addFree], order_addFree _ _ _,
          (physAddr_addFree _ _ _ _).trans hdescr.physAddr, hdescr.order_le⟩
      simpa using hnew
    · simp
    · simp
    · simp [flags_addFree, hres]
    · exact fun X rest n htiles => htiles
  obtain ⟨hadd, hsameMem⟩ := h.replace hreplace hlisted.lists (List.Perm.refl _) hadded
    (perm_cons_erase hb) (List.Perm.refl _)
  obtain ⟨s', r, L', hmerge, hmerged⟩ := buddyMerge_spec (k := b.order) (p := b.base) hadd (by simp)
  have hused := statUsedPages_buddyMerge hmerge
  refine ⟨s', L', ?_, hmerged.rep, hsameMem.trans hmerged.mem, hused, hmerged.coalesced _ hadded⟩
  have hacc : acceptedPfn s (pfnToPhys b.base) b.order = some b.base := by
    have hptr : pfnToPhys b.base ≠ 0 := by simp [pfnToPhys, physMemBase]
    simp [acceptedPfn, hptr, physToPfn_pfnToPhys, hdescr.free, hdescr.order, hdescr.order_le, hres,
      hlt]
  rw [freePages_eq, hacc]
  simp [hmerge]

end Aurora.Buddy
