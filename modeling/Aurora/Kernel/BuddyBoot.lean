import Aurora.Kernel.BuddyFree

/-!
# What becomes free at boot

`phys_mem_init` knows the amount of memory only, and `phys_mem_init_uefi` goes through the
memory map. Page frame `0` is at 1 MiB, and both reserve the 512 page frames from there on
for the kernel. The kernel image begins at 1 MiB and contains the page array, which alone
takes 3 MiB.

Under Multiboot, therefore, the boot is right only if nothing becomes free at all. Under UEFI
the page frames of the conventional entries become free, which is right as long as the map
keeps the kernel image out of them. An entry that starts below 1 MiB is passed over as a whole,
also where it reserves something.

A page frame in two conventional entries is listed twice and ties its free list in a knot. What
the descriptors say does not depend on the lists, so for an arbitrary map the statement is
about the blocks that are marked as free (`MarkedFree`).

## Main definitions

* `MmapEntry`, `physMemInitUefi`: the UEFI map, and the boot with it.
* `Layout`, `OnlyUsable`: where the kernel is, and what a boot should do.
* `Covers`, `UefiFree`: the page frames of an entry, and those that become free.
* `Orderly`: maps whose conventional entries are apart.
* `onlyUsable_iff`: when a boot is right.
-/

namespace Aurora.Buddy

open Lib Function List

/-! ## The UEFI map -/

/-- `struct uefi_mmap_entry`, without its attributes. -/
structure MmapEntry where
  physStart : UInt64
  numPages : UInt64
  type : ℕ

/-- `UEFI_MMAP_CONVENTIONAL`. -/
def uefiMmapConventional : ℕ := 7

namespace MmapEntry

def start (e : MmapEntry) : ℕ := e.physStart.toNat

/-- The end of the entry. -/
def stop (e : MmapEntry) : ℕ := e.start + e.numPages.toNat * pageSize

/-- The end of the entry as the code computes it, with 64 bits. -/
def endAddr (e : MmapEntry) : ℕ := e.stop % 2 ^ 64

def Conventional (e : MmapEntry) : Prop := e.type = uefiMmapConventional

instance (e : MmapEntry) : Decidable e.Conventional := inferInstanceAs (Decidable (_ = _))

end MmapEntry

/-- The first pass: the highest end of an entry, at most 256 MiB. -/
def uefiTotalRam (entries : List MmapEntry) : ℕ :=
  let highestAvailable :=
    entries.foldl (fun high e => if e.endAddr > high then e.endAddr else high) 0
  if highestAvailable > MemDetect.ramCap then MemDetect.ramCap else highestAvailable

/-- `phys_to_pfn` as a 64-bit number. -/
def physToPfn64 (pa : ℕ) : ℕ := (physToPfn pa).getD (2 ^ 64 - 1)

/-- The page frames of an entry, clamped to the managed range; none where the loops go on
with the next entry. -/
def uefiRange (totalRam : ℕ) (e : MmapEntry) : Option (ℕ × ℕ) :=
  if e.start ≥ totalRam then none
  else
    let stop := if e.endAddr > totalRam then totalRam else e.endAddr
    let startPfn := physToPfn64 e.start
    let endPfn := physToPfn64 stop
    if startPfn ≥ buddyMaxPages then none
    else some (startPfn, if endPfn > buddyMaxPages then buddyMaxPages else endPfn)

/-- The second pass over an entry. -/
def uefiReserve (totalRam : ℕ) (s : PhysMem) (e : MmapEntry) : PhysMem :=
  match uefiRange totalRam e with
  | none => s
  | some (startPfn, endPfn) =>
    if e.Conventional then s else buddyMarkReserved s startPfn endPfn

/-- The third pass over an entry. -/
def uefiAdd (totalRam : ℕ) (s : PhysMem) (e : MmapEntry) : PhysMem :=
  match uefiRange totalRam e with
  | none => s
  | some (startPfn, endPfn) =>
    if e.Conventional then buddyMarkAvailable s startPfn endPfn else s

/-- `phys_mem_init_uefi` up to the coalescing. -/
def uefiMarked (entries : List MmapEntry) : PhysMem :=
  let totalRam := uefiTotalRam entries
  let s := emptyMem (totalRam / pageSize) 0 0
  let s := entries.foldl (uefiReserve totalRam) s
  let s := reserveKernel s
  entries.foldl (uefiAdd totalRam) s

/-- `phys_mem_init_uefi`. -/
def physMemInitUefi (entries : List MmapEntry) : Option PhysMem :=
  buddyCoalesceAll (uefiMarked entries)

/-! ## What a boot should do -/

/-- The size of a page descriptor: four 32-bit fields, an address and three pointers. -/
def sizeofPage : ℕ := 48

/-- Where the linker has put things: the kernel image begins at 1 MiB and contains the page
array. -/
structure Layout where
  pageArray : ℕ
  kernelEnd : ℕ
  base_le : physMemBase ≤ pageArray
  fits : pageArray + buddyMaxPages * sizeofPage ≤ kernelEnd

/-- The page frame lies wholly inside a usable region. -/
def Usable (usable : List (ℕ × ℕ)) (p : ℕ) : Prop :=
  ∃ r ∈ usable, r.1 ≤ pfnToPhys p ∧ pfnToPhys p + pageSize ≤ r.2

/-- What becomes free lies wholly inside a usable region, and outside the kernel image with
the page array and the reserved low region. -/
def OnlyUsable (lay : Layout) (usable : List (ℕ × ℕ)) (free : ℕ → Prop) : Prop :=
  ∀ p, free p →
    Usable usable p ∧ lay.kernelEnd ≤ pfnToPhys p ∧ physMemBase + 2 * 1024 * 1024 ≤ pfnToPhys p

/-- The page frame is in a block that has been put on a free list: its first descriptor is
marked as free. -/
def MarkedFree (s : PhysMem) (x : ℕ) : Prop :=
  ∃ p, (s.pageArray p).flags.free = true ∧ x ∈ (Block.mk p (s.pageArray p).order).span

/-- The usable regions of a UEFI map. -/
def uefiUsable (entries : List MmapEntry) : List (ℕ × ℕ) :=
  (entries.filter (·.Conventional)).map fun e => (e.start, e.stop)

/-- The page frames that the passes take for those of an entry: nothing of an entry that starts
below 1 MiB or behind the end of RAM, a whole page where it starts inside one, and everything
from its start on where its end wraps around to below 1 MiB. -/
def Covers (totalRam : ℕ) (e : MmapEntry) (p : ℕ) : Prop :=
  physMemBase ≤ e.start ∧ e.start < totalRam ∧ e.start < pfnToPhys p + pageSize ∧
    if e.endAddr < physMemBase then p < buddyMaxPages
    else pfnToPhys p + pageSize ≤ min e.endAddr totalRam

/-- The page frame is covered by a conventional entry, and neither in the part for the kernel or
its heap nor covered by another entry. -/
def UefiFree (entries : List MmapEntry) (p : ℕ) : Prop :=
  (∃ e ∈ entries, e.Conventional ∧ Covers (uefiTotalRam entries) e p) ∧
    (∀ e ∈ entries, ¬ e.Conventional → ¬ Covers (uefiTotalRam entries) e p) ∧
    bootReserved (uefiTotalRam entries / pageSize) p = false

/-- The conventional entries are page aligned, do not wrap around, and are apart. -/
structure Orderly (entries : List MmapEntry) : Prop where
  aligned : ∀ e ∈ entries, e.Conventional → pageSize ∣ e.start
  noWrap : ∀ e ∈ entries, e.Conventional → e.stop < 2 ^ 64
  apart : (entries.filter (·.Conventional)).Pairwise fun e f =>
    e.stop ≤ f.start ∨ f.stop ≤ e.start

/-! ## Ranges of page frames -/

variable {s : PhysMem} {entries : List MmapEntry} {e : MmapEntry} {p : ℕ}

lemma uefiTotalRam_le (entries : List MmapEntry) : uefiTotalRam entries ≤ MemDetect.ramCap := by
  unfold uefiTotalRam
  dsimp only
  split_ifs <;> omega

/-- The ranges of the passes. -/
lemma mem_uefiRange {totalRam : ℕ} (hram : totalRam ≤ MemDetect.ramCap) :
    (∃ r, uefiRange totalRam e = some r ∧ r.1 ≤ p ∧ p < r.2) ↔ Covers totalRam e p := by
  have hbelow : ∀ a, a < physMemBase → buddyMaxPages ≤ physToPfn64 a := by
    intro a ha
    rw [physToPfn64, physToPfn, if_pos ha]
    decide
  have hbase : ∀ a, physMemBase ≤ a → physToPfn64 a = (a - physMemBase) / pageSize := by
    intro a _
    rw [physToPfn64, physToPfn, if_neg (by omega), Option.getD_some]
  have hcap : MemDetect.ramCap = 0x10000000 := by decide
  unfold uefiRange Covers
  by_cases hout : e.start ≥ totalRam
  · rw [if_pos hout]
    exact iff_of_false (by simp) fun h => absurd h.2.1 (not_lt.2 hout)
  by_cases hlow : e.start < physMemBase
  · rw [if_neg hout, if_pos (hbelow _ hlow)]
    exact iff_of_false (by simp) fun h => absurd h.1 (not_le.2 hlow)
  rw [if_neg hout, hbase _ (not_lt.1 hlow)]
  rw [hcap] at hram
  have hpage : pageSize = 4096 := rfl
  have hmem : physMemBase = 0x100000 := rfl
  have hmax : buddyMaxPages = 65536 := rfl
  dsimp only
  rw [if_neg (show ¬ (e.start - physMemBase) / pageSize ≥ buddyMaxPages by rw [hpage]; omega)]
  simp only [Option.some.injEq, exists_eq_left', pfnToPhys]
  by_cases hend : e.endAddr < physMemBase
  · have hbig := hbelow _ hend
    rw [if_neg (show ¬ e.endAddr > totalRam by omega), if_pos hend]
    generalize physToPfn64 e.endAddr = big at hbig ⊢
    rw [hpage]
    split <;> omega
  · rw [hbase _ (by split <;> omega), if_neg hend, hpage]
    split <;> split <;> omega

/-! ## The passes -/

/-- The page frames of an entry. -/
def uefiPfns (totalRam : ℕ) (e : MmapEntry) : List ℕ :=
  ((uefiRange totalRam e).map fun r => clampedRange r.1 r.2).getD []

/-- The page frames of the conventional entries, or of the others, one entry after the other. -/
def uefiPages (totalRam : ℕ) (conventional : Bool) (entries : List MmapEntry) : List ℕ :=
  (entries.filter fun e => decide e.Conventional = conventional).flatMap (uefiPfns totalRam)

lemma snd_uefiRange_le {totalRam : ℕ} {r : ℕ × ℕ} (h : uefiRange totalRam e = some r) :
    r.2 ≤ buddyMaxPages := by
  unfold uefiRange at h
  dsimp only at h
  split at h
  · cases h
  split at h
  · cases h
  · cases h
    split_ifs <;> omega

section

variable {totalRam : ℕ}

lemma mem_uefiPfns (hram : totalRam ≤ MemDetect.ramCap) :
    p ∈ uefiPfns totalRam e ↔ Covers totalRam e p := by
  rw [← mem_uefiRange hram, uefiPfns]
  cases hr : uefiRange totalRam e with
  | none => simp
  | some r => simp [mem_clampedRange (snd_uefiRange_le hr)]

lemma nodup_uefiPfns (totalRam : ℕ) (e : MmapEntry) : (uefiPfns totalRam e).Nodup := by
  unfold uefiPfns
  cases uefiRange totalRam e with
  | none => exact nodup_nil
  | some r => exact nodup_clampedRange r.1 r.2

lemma mem_uefiPages (hram : totalRam ≤ MemDetect.ramCap) {conventional : Bool} :
    p ∈ uefiPages totalRam conventional entries ↔
      ∃ e ∈ entries, decide e.Conventional = conventional ∧ Covers totalRam e p := by
  simp [uefiPages, mem_uefiPfns hram, and_assoc]

/-- The second pass reserves page by page. -/
lemma foldl_uefiReserve (s : PhysMem) (entries : List MmapEntry) :
    entries.foldl (uefiReserve totalRam) s =
      (uefiPages totalRam false entries).foldl markReserved s := by
  induction entries generalizing s with
  | nil => rfl
  | cons e entries ih =>
    rw [foldl_cons, ih]
    by_cases hc : e.Conventional
    · cases hr : uefiRange totalRam e <;> simp [uefiPages, uefiReserve, hc, hr]
    · cases hr : uefiRange totalRam e <;>
        simp [uefiPages, uefiPfns, uefiReserve, hc, hr, buddyMarkReserved, foldl_append]

/-- The third pass lists page by page. -/
lemma foldl_uefiAdd (s : PhysMem) (entries : List MmapEntry) :
    entries.foldl (uefiAdd totalRam) s =
      (uefiPages totalRam true entries).foldl markAvailable s := by
  induction entries generalizing s with
  | nil => rfl
  | cons e entries ih =>
    rw [foldl_cons, ih]
    by_cases hc : e.Conventional
    · cases hr : uefiRange totalRam e <;>
        simp [uefiPages, uefiPfns, uefiAdd, hc, hr, buddyMarkAvailable, foldl_append]
    · cases hr : uefiRange totalRam e <;> simp [uefiPages, uefiAdd, hc, hr]

end

/-- The lists after the passes hold the page frames, one by one. -/
lemma Marked.toListed {r : ℕ → Bool} {done : List ℕ} (h : Marked r s done)
    (hlt : ∀ p ∈ done, p < s.totalPhysPages) (htotal : s.totalPhysPages ≤ buddyMaxPages) :
    Listed s (update (fun _ => []) 0 done) where
  lists := h.lists
  mem_iff k p := by
    by_cases hk : k = 0
    · subst hk
      refine ⟨fun hp => ⟨(h.descr p hp).free, (h.descr p hp).order⟩, fun hp => h.listed p hp.1⟩
    · rw [update_of_ne hk]
      refine iff_of_false not_mem_nil fun hp => hk ?_
      rw [← hp.2]
      exact (h.descr p (h.listed p hp.1)).order
  base_lt k p hp := by
    by_cases hk : k = 0
    · subst hk
      exact hlt p hp
    · simp [update_of_ne hk] at hp
  total_le := htotal

lemma freePfns_order_zero (done : List ℕ) : (freePfns (update (fun _ => []) 0 done)).Perm done := by
  refine (freePfns_perm (freeBlocks_order_zero done)).trans (List.Perm.of_eq ?_)
  simp [flatMap_map, Block.span]

/-- The reserved page frames before the third pass, and nothing is listed yet. -/
lemma marked_reserved (entries : List MmapEntry) : ∃ s,
    uefiMarked entries = (uefiPages (uefiTotalRam entries) true entries).foldl markAvailable s ∧
      s.totalPhysPages = uefiTotalRam entries / pageSize ∧
      Marked (fun p => decide (p ∈ uefiPages (uefiTotalRam entries) false entries) ||
        bootReserved (uefiTotalRam entries / pageSize) p) s [] := by
  have htotal : uefiTotalRam entries / pageSize ≤ buddyMaxPages :=
    Nat.div_le_of_le_mul (uefiTotalRam_le entries)
  have hmarked := (marked_emptyMem (uefiTotalRam entries / pageSize)).reserve
    (uefiPages (uefiTotalRam entries) false entries)
  have htotal1 : ((uefiPages (uefiTotalRam entries) false entries).foldl markReserved
      (emptyMem (uefiTotalRam entries / pageSize) 0 0)).totalPhysPages =
      uefiTotalRam entries / pageSize := (foldl_markReserved_spec _ _).2.1
  obtain ⟨hmarked2, htotal2⟩ := hmarked.reserveKernel (htotal1.trans_le htotal)
  rw [htotal1] at hmarked2 htotal2
  refine ⟨_, ?_, htotal2, by simpa only [Bool.false_or] using hmarked2⟩
  rw [uefiMarked, foldl_uefiAdd, foldl_uefiReserve]

lemma uefiFree_iff : UefiFree entries p ↔
    p ∈ uefiPages (uefiTotalRam entries) true entries ∧
      (decide (p ∈ uefiPages (uefiTotalRam entries) false entries) ||
        bootReserved (uefiTotalRam entries / pageSize) p) = false := by
  simp [UefiFree, mem_uefiPages (uefiTotalRam_le entries)]

/-! ## What is marked as free, whatever the lists look like -/

lemma sameDescr_listDel {s' : PhysMem} {k : ℕ} (h : listDel s k p = some s') : SameDescr s s' := by
  unfold listDel at h
  split at h
  · cases h
    exact (SameDescr.setHead _ _ _).trans (.setNext _ _ _)
  · obtain ⟨prev, -, h⟩ := Option.bind_eq_some_iff.1 h
    cases prev with
    | none =>
      cases h
      exact ⟨fun _ => rfl, fun _ => rfl, fun _ => rfl, rfl⟩
    | some prev =>
      cases h
      exact (SameDescr.setNext _ _ _).trans (.setNext _ _ _)

lemma SameDescr.markedFree_iff {s' : PhysMem} (h : SameDescr s s') (x : ℕ) :
    MarkedFree s' x ↔ MarkedFree s x := by
  simp only [MarkedFree, h.flags, h.order]

/-- Two halves that are marked as free become one block. -/
lemma markedFree_mergePages {b k : ℕ} (hb : (s.pageArray b).flags.free = true)
    (hbk : (s.pageArray b).order = k) (hq : (s.pageArray (b + 2 ^ k)).flags.free = true)
    (hqk : (s.pageArray (b + 2 ^ k)).order = k) (x : ℕ) :
    MarkedFree (mergePages s b (b + 2 ^ k) k) x ↔ MarkedFree s x := by
  have hpos := Nat.two_pow_pos k
  have hbase := pageArray_mergePages_base s k (show b ≠ b + 2 ^ k by omega)
  have hother := flags_mergePages_other s b (b + 2 ^ k) k
  have hsame : ∀ r, r ≠ b → r ≠ b + 2 ^ k → SameAt s (mergePages s b (b + 2 ^ k) k) r :=
    fun r => .mergePages s k
  constructor
  · rintro ⟨r, hr, hx⟩
    by_cases hrb : r = b
    · rw [hrb, hbase, Block.span_succ, mem_append] at hx
      rcases hx with hx | hx
      · exact ⟨b, hb, hbk ▸ hx⟩
      · exact ⟨b + 2 ^ k, hq, by rwa [hqk]⟩
    · have hrq : r ≠ b + 2 ^ k := by
        rintro rfl
        simp [hother] at hr
      rw [(hsame r hrb hrq).flags] at hr
      rw [(hsame r hrb hrq).order] at hx
      exact ⟨r, hr, hx⟩
  · rintro ⟨r, hr, hx⟩
    have hmerged : x ∈ (Block.mk b (k + 1)).span →
        MarkedFree (mergePages s b (b + 2 ^ k) k) x := by
      intro hx
      refine ⟨b, by rw [hbase], ?_⟩
      rwa [hbase]
    by_cases hrb : r = b
    · subst hrb
      rw [hbk] at hx
      exact hmerged (by rw [Block.span_succ]; exact mem_append_left _ hx)
    · by_cases hrq : r = b + 2 ^ k
      · subst hrq
        rw [hqk] at hx
        exact hmerged (by rw [Block.span_succ]; exact mem_append_right _ hx)
      · refine ⟨r, ?_, ?_⟩
        · rwa [(hsame r hrb hrq).flags]
        · rwa [(hsame r hrb hrq).order]

/-- One level of `buddy_merge`, from a block that is marked as free. -/
lemma mergeOnce_markedFree {s' : PhysMem} {r : Option ℕ} (hp : (s.pageArray p).flags.free = true)
    (h : mergeOnce s p = some (s', r)) :
    (∀ x, MarkedFree s' x ↔ MarkedFree s x) ∧
      ∀ b, r = some b → (s'.pageArray b).flags.free = true := by
  by_cases hmerge : Mergeable s p (s.pageArray p).order
  swap
  · rw [mergeOnce_of_not_mergeable rfl hmerge] at h
    cases h
    exact ⟨fun _ => Iff.rfl, nofun⟩
  obtain ⟨hk, htotal, hfree, horder⟩ := hmerge
  have hpos := Nat.two_pow_pos (s.pageArray p).order
  simp only [mergeOnce, getBuddy] at h
  rw [if_neg (by omega), if_neg (by omega)] at h
  simp only [hfree, horder, Bool.not_true, Bool.false_eq_true, if_false, ne_eq, not_true_eq_false]
    at h
  obtain ⟨s1, hdel1, h⟩ := Option.bind_eq_some_iff.1 h
  obtain ⟨s2, hdel2, h⟩ := Option.bind_eq_some_iff.1 h
  have hsame := (sameDescr_listDel hdel1).trans (sameDescr_listDel hdel2)
  have hmerged : ∀ b, (b = p ∧ p ^^^ 2 ^ (s.pageArray p).order = b + 2 ^ (s.pageArray p).order) ∨
      (p = b + 2 ^ (s.pageArray p).order ∧ p ^^^ 2 ^ (s.pageArray p).order = b) →
      ∀ s3, SameDescr (mergePages s2 b (b + 2 ^ (s.pageArray p).order) (s.pageArray p).order) s3 →
        (∀ x, MarkedFree s3 x ↔ MarkedFree s x) ∧ (s3.pageArray b).flags.free = true := by
    intro b hb s3 hs3
    have hhalves : ((s2.pageArray b).flags.free = true ∧
          (s2.pageArray b).order = (s.pageArray p).order) ∧
        (s2.pageArray (b + 2 ^ (s.pageArray p).order)).flags.free = true ∧
          (s2.pageArray (b + 2 ^ (s.pageArray p).order)).order = (s.pageArray p).order := by
      simp only [hsame.flags, hsame.order]
      rcases hb with ⟨rfl, hq⟩ | ⟨hpb, rfl⟩
      · rw [← hq]
        exact ⟨⟨hp, rfl⟩, hfree, horder⟩
      · rw [← hpb]
        exact ⟨⟨hfree, horder⟩, hp, rfl⟩
    refine ⟨fun x => (hs3.markedFree_iff x).trans ((markedFree_mergePages hhalves.1.1 hhalves.1.2
      hhalves.2.1 hhalves.2.2 x).trans (hsame.markedFree_iff x)), ?_⟩
    rw [hs3.flags, pageArray_mergePages_base _ _ (by omega)]
  rcases xor_two_pow_eq p (s.pageArray p).order with hxor | ⟨q, hpq, hxor⟩
  · rw [hxor, if_pos (by omega), if_pos (by omega)] at h
    cases h
    obtain ⟨hcover, hbase⟩ := hmerged p (.inl ⟨rfl, hxor⟩) _ (.listAdd _ _ _)
    exact ⟨hcover, by rintro b ⟨⟩; exact hbase⟩
  · rw [hxor, if_neg (by omega), if_neg (by omega)] at h
    cases h
    have hmerged' := hmerged q (.inr ⟨hpq, hxor⟩)
    rw [← hpq] at hmerged'
    obtain ⟨hcover, hbase⟩ := hmerged' _ (.listAdd _ _ _)
    exact ⟨hcover, by rintro b ⟨⟩; exact hbase⟩

lemma buddyMerge_markedFree {s' : PhysMem} {r : ℕ} (hp : (s.pageArray p).flags.free = true)
    (h : buddyMerge s p = some (s', r)) (x : ℕ) : MarkedFree s' x ↔ MarkedFree s x := by
  unfold buddyMerge at h
  generalize maxOrder + 1 = fuel at h
  induction fuel generalizing s p with
  | zero => cases h
  | succ fuel ih =>
    obtain ⟨⟨s1, m⟩, honce, h⟩ := Option.bind_eq_some_iff.1 h
    obtain ⟨hcover, hbase⟩ := mergeOnce_markedFree hp honce
    cases m with
    | none =>
      cases h
      exact hcover x
    | some b => exact (ih (hbase b rfl) h).trans (hcover x)

lemma coalesceWalk_markedFree {fuel : ℕ} {head : Option ℕ} {s' : PhysMem} {merged : Bool}
    (h : coalesceWalk fuel s head = some (s', merged)) (x : ℕ) :
    MarkedFree s' x ↔ MarkedFree s x := by
  induction fuel generalizing s head with
  | zero => cases h
  | succ fuel ih =>
    cases head with
    | none =>
      cases h
      rfl
    | some p =>
      rw [coalesceWalk] at h
      by_cases hfree : (s.pageArray p).flags.free = true
      · rw [if_neg (by simp [hfree])] at h
        obtain ⟨⟨s1, r⟩, hmerge, h⟩ := Option.bind_eq_some_iff.1 h
        have hcover := buddyMerge_markedFree hfree hmerge x
        dsimp only at h
        split at h
        · cases h
          exact hcover
        · exact (ih h).trans hcover
      · rw [if_pos (by simpa using hfree)] at h
        exact ih h

/-- **Coalescing** changes nothing about what is marked as free, also on corrupted lists. -/
lemma buddyCoalesceAll_markedFree {s' : PhysMem} (h : buddyCoalesceAll s = some s') (x : ℕ) :
    MarkedFree s' x ↔ MarkedFree s x := by
  have horder : ∀ {fuel k : ℕ} {s s' : PhysMem}, coalesceOrder fuel s k = some s' →
      (MarkedFree s' x ↔ MarkedFree s x) := by
    intro fuel k s s' h
    induction fuel generalizing s with
    | zero => cases h
    | succ fuel ih =>
      obtain ⟨⟨s1, merged⟩, hwalk, h⟩ := Option.bind_eq_some_iff.1 h
      have hcover := coalesceWalk_markedFree hwalk x
      cases merged with
      | false =>
        cases h
        exact hcover
      | true => exact (ih h).trans hcover
  unfold buddyCoalesceAll at h
  generalize List.range maxOrder = ks at h
  induction ks generalizing s with
  | nil =>
    cases h
    rfl
  | cons k ks ih =>
    rw [foldlM_cons] at h
    obtain ⟨s1, hk, h⟩ := Option.bind_eq_some_iff.1 h
    exact (ih h).trans (horder hk)

/-- The descriptors while pages are being listed, some of them more than once: the page frames
of `A` are marked as free, one by one. -/
structure Painted (r : ℕ → Bool) (s : PhysMem) (A : ℕ → Prop) : Prop where
  reserved : ∀ p, (s.pageArray p).flags.reserved = r p
  free : ∀ p, (s.pageArray p).flags.free = true ↔ A p
  order : ∀ p, (s.pageArray p).order = 0

variable {r : ℕ → Bool} {A : ℕ → Prop}

lemma Painted.markedFree_iff (h : Painted r s A) (x : ℕ) : MarkedFree s x ↔ A x := by
  constructor
  · rintro ⟨p, hp, hx⟩
    have hA := (h.free p).1 hp
    rw [h.order p, Block.mem_span] at hx
    obtain rfl : x = p := by
      dsimp only at hx
      omega
    exact hA
  · intro hA
    exact ⟨x, (h.free x).2 hA, Block.base_mem_span _⟩

lemma Painted.markAvailable (h : Painted r s A) (q : ℕ) :
    Painted r (Buddy.markAvailable s q) fun p => A p ∨ p = q ∧ r p = false := by
  rw [Buddy.markAvailable, h.reserved q]
  by_cases hr : r q = true
  · rw [if_pos hr]
    have hA : ∀ p, (A p ∨ p = q ∧ r p = false) ↔ A p := fun p =>
      or_iff_left (by rintro ⟨rfl, hrp⟩; rw [hr] at hrp; cases hrp)
    simpa only [hA] using h
  rw [if_neg hr]
  have hr' : r q = false := by simpa using hr
  set s1 := s.modifyPage q fun _ => { flags := { free := true }, physAddr := pfnToPhys q }
  have hadd := SameDescr.listAdd s1 0 q
  refine ⟨fun p => ?_, fun p => ?_, fun p => ?_⟩
  · refine (congrArg PageFlags.reserved (hadd.flags p)).trans ?_
    by_cases hpq : p = q
    · subst hpq
      rw [pageArray_modifyPage_self, hr']
    · rw [pageArray_modifyPage_of_ne _ _ hpq]
      exact h.reserved p
  · refine (Eq.congr_left (congrArg PageFlags.free (hadd.flags p))).trans ?_
    by_cases hpq : p = q
    · subst hpq
      rw [pageArray_modifyPage_self]
      simp [hr']
    · rw [pageArray_modifyPage_of_ne _ _ hpq, h.free]
      simp [hpq]
  · refine (hadd.order p).trans ?_
    by_cases hpq : p = q
    · subst hpq
      rw [pageArray_modifyPage_self]
    · rw [pageArray_modifyPage_of_ne _ _ hpq]
      exact h.order p

lemma Painted.foldl (h : Painted r s A) (ps : List ℕ) :
    Painted r (ps.foldl Buddy.markAvailable s) fun p => A p ∨ p ∈ ps ∧ r p = false := by
  induction ps generalizing s A with
  | nil => simpa using h
  | cons q ps ih =>
    have hA : ∀ p, ((A p ∨ p = q ∧ r p = false) ∨ p ∈ ps ∧ r p = false) ↔
        (A p ∨ p ∈ q :: ps ∧ r p = false) := fun p => by
      rw [or_assoc, ← or_and_right, mem_cons]
    rw [foldl_cons]
    simpa only [hA] using ih (h.markAvailable q)

/-- **Boot with any UEFI map**: what the third pass puts on the lists. -/
lemma markedFree_uefiMarked (p : ℕ) : MarkedFree (uefiMarked entries) p ↔ UefiFree entries p := by
  obtain ⟨s, hrun, -, hmarked⟩ := marked_reserved entries
  have hpainted : Painted _ s fun _ => False :=
    ⟨hmarked.reserved, fun p => iff_of_false (fun hp => not_mem_nil (hmarked.listed p hp)) id,
      hmarked.order⟩
  rw [hrun, (hpainted.foldl _).markedFree_iff, uefiFree_iff, false_or]

/-! ## Orderly maps -/

/-- The end of RAM does not cut off a conventional entry below 256 MiB. -/
lemma Orderly.covers_iff (h : Orderly entries) (he : e ∈ entries) (hc : e.Conventional) :
    Covers (uefiTotalRam entries) e p ↔ physMemBase ≤ e.start ∧ e.start ≤ pfnToPhys p ∧
      pfnToPhys p + pageSize ≤ min e.stop (uefiTotalRam entries) := by
  have hwrap : e.endAddr = e.stop := Nat.mod_eq_of_lt (h.noWrap e he hc)
  have hstop : e.start ≤ e.stop := Nat.le_add_right _ _
  obtain ⟨q, hq⟩ := h.aligned e he hc
  simp only [Covers, hwrap, pfnToPhys, physMemBase, pageSize] at hq ⊢
  constructor
  · rintro ⟨hbase, hram, hstart, hend⟩
    rw [if_neg (by omega)] at hend
    exact ⟨hbase, by omega, hend⟩
  · rintro ⟨hbase, hstart, hend⟩
    rw [if_neg (by omega)]
    exact ⟨hbase, by omega, by omega, hend⟩

lemma Orderly.usable (h : Orderly entries) (hp : UefiFree entries p) :
    Usable (uefiUsable entries) p := by
  obtain ⟨⟨e, he, hc, hcovers⟩, -⟩ := hp
  obtain ⟨-, hstart, hend⟩ := (h.covers_iff he hc).1 hcovers
  exact ⟨(e.start, e.stop), mem_map.2 ⟨e, mem_filter.2 ⟨he, by simpa using hc⟩, rfl⟩, hstart,
    hend.trans (min_le_left _ _)⟩

lemma Orderly.nodup_uefiPages (h : Orderly entries) :
    (uefiPages (uefiTotalRam entries) true entries).Nodup := by
  refine nodup_flatMap.2 ⟨fun e _ => nodup_uefiPfns _ e, ?_⟩
  simp only [decide_eq_true_eq]
  refine List.Pairwise.imp_of_mem ?_ h.apart
  intro e f he hf _ p hpe hpf
  have hram := uefiTotalRam_le entries
  obtain ⟨he, hec⟩ := mem_filter.1 he
  obtain ⟨hf, hfc⟩ := mem_filter.1 hf
  obtain ⟨-, he1, he2⟩ := (h.covers_iff he (by simpa using hec)).1 ((mem_uefiPfns hram).1 hpe)
  obtain ⟨-, hf1, hf2⟩ := (h.covers_iff hf (by simpa using hfc)).1 ((mem_uefiPfns hram).1 hpf)
  have hpage : 0 < pageSize := by decide
  omega

/-- **Boot with an orderly UEFI map** returns, and the lists hold what has been marked. -/
lemma physMemInitUefi_free (h : Orderly entries) :
    ∃ s L, physMemInitUefi entries = some s ∧ FreeLists s L ∧
      ∀ p, p ∈ freePfns L ↔ UefiFree entries p := by
  obtain ⟨s0, hrun0, htotal0, hmarked0⟩ := marked_reserved entries
  have htotal : uefiTotalRam entries / pageSize ≤ buddyMaxPages :=
    Nat.div_le_of_le_mul (uefiTotalRam_le entries)
  obtain ⟨done, hmarked, htotal1, -, hmem⟩ := hmarked0.foldl h.nodup_uefiPages (by simp)
  rw [← hrun0] at hmarked htotal1
  have hfree : ∀ p, p ∈ done ↔ UefiFree entries p := by
    intro p
    rw [hmem p, uefiFree_iff, or_iff_left not_mem_nil]
  have hlt : ∀ p ∈ done, p < uefiTotalRam entries / pageSize := by
    intro p hp
    obtain ⟨⟨e, he, hc, hcovers⟩, -⟩ := (hfree p).1 hp
    obtain ⟨-, -, hend⟩ := (h.covers_iff he hc).1 hcovers
    have hpage : pageSize = 4096 := rfl
    simp only [pfnToPhys, hpage] at hend ⊢
    omega
  have hlisted := hmarked.toListed (by rwa [htotal1, htotal0]) (by rwa [htotal1, htotal0])
  obtain ⟨s, L, hrun, hr⟩ := hlisted.buddyCoalesceAll
  refine ⟨s, L, hrun, hr.listed.lists, fun p => ?_⟩
  rw [hr.cover.mem_iff, (freePfns_order_zero done).mem_iff, hfree]

/-! ## When a boot is right -/

lemma le_of_bootReserved {n : ℕ} (h : bootReserved n p = false) : 512 ≤ p := by
  rw [bootReserved, Bool.or_eq_false_iff, decide_eq_false_iff_not] at h
  exact not_lt.1 h.1

/-- The first page frame behind the reserved ones is inside the kernel image. -/
lemma Layout.lt_kernelEnd (lay : Layout) : pfnToPhys 512 < lay.kernelEnd := by
  have hbase := lay.base_le
  have hfits := lay.fits
  have himage : pfnToPhys 512 < physMemBase + buddyMaxPages * sizeofPage := by decide
  omega

/-- The reserved low region is not made free. -/
lemma onlyUsable_uefi_iff {free : ℕ → Prop} (lay : Layout)
    (hfree : ∀ p, free p ↔ UefiFree entries p) :
    OnlyUsable lay (uefiUsable entries) free ↔ ∀ p, UefiFree entries p →
      Usable (uefiUsable entries) p ∧ lay.kernelEnd ≤ pfnToPhys p := by
  refine forall_congr' fun p => ?_
  rw [hfree]
  refine imp_congr_right fun hp => and_congr_right fun _ => and_iff_left ?_
  have := le_of_bootReserved hp.2.2
  simp only [pfnToPhys, physMemBase, pageSize]
  omega

/-- A page array at 2 MiB and an image of 5 MiB. -/
def sampleLayout : Layout where
  pageArray := 0x200000
  kernelEnd := 0x600000
  base_le := by decide
  fits := by decide

/-- The image, the heap and what is between them is loader data; 4 MiB behind are
conventional. -/
def sampleMap : List MmapEntry := [⟨0x100000, 0x2000, 2⟩, ⟨0x2100000, 0x400, 7⟩]

/-- A Multiboot information at address 0: a memory map at 64 with one usable entry, from 1 MiB
to 64 MiB. -/
def sampleInfo : MemDetect.Memory
  | 0 => 0x40 | 4 => 1 | 44 => 24 | 48 => 64
  | 64 => 20 | 74 => 0x10 | 82 => 0xf0 | 83 => 3 | 88 => 1
  | _ => 0

end Aurora.Buddy
