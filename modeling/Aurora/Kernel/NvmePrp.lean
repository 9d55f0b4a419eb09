import Aurora.Kernel.NvmeQueue

/-!
# The data pointers of NVMe commands

A command names the pages of its buffer by two pointers. When there are more than two pages, the
second one points to a list of the others, and when the 512 entries of a page are not enough, the
last entry of a list points to the next one. The driver fills 64 entries at most.

## Main definitions

* `Request.prpList`: the list of pages that `nvme_io_submit` writes.
* `prpPages`: the pages that a controller takes from a command.
* `exact_iff`: when these are the pages of the buffer.
-/

namespace Aurora.Nvme

/-- The loop that fills the list, from `dataAddr` on. -/
def fillList (dataAddr : UInt64) : ℕ → List UInt64
  | 0 => []
  | n + 1 => dataAddr :: fillList (dataAddr + 0x1000) n

/-- `NVME_PRP_ENTRIES`: `NVME_PRP_LIST_SIZE / sizeof(uint64_t)`. -/
def prpEntries : ℕ := 512 / 8

/-- The entries of a page, as a controller reads it. -/
def pageEntries : ℕ := 0x1000 / 8

/-- The list of a request; the page was cleared before. -/
def Request.prpList (r : Request) : List UInt64 :=
  let entries := min r.remainingPages prpEntries
  fillList (r.secondPage + 0x1000) entries ++ List.replicate (pageEntries - entries) 0

/-- The lists in memory, by their addresses. -/
def Request.memory (r : Request) (other : UInt64 → List UInt64) : UInt64 → List UInt64 :=
  fun p => if r.page = some p then r.prpList else other p

/-! ## What a controller reads -/

/-- The page of an address. -/
def pageOf (a : UInt64) : UInt64 := a &&& ~~~0xFFF

/-- The next `n` pages from the list at `p` on, in at most `k` lists. -/
def listPages (mem : UInt64 → List UInt64) : ℕ → UInt64 → ℕ → List UInt64
  | 0, _, _ => []
  | k + 1, p, n =>
    if n ≤ pageEntries then (mem p).take n
    else (mem p).take (pageEntries - 1) ++
      listPages mem k ((mem p).getD (pageEntries - 1) 0) (n - (pageEntries - 1))

/-- The `n` pages of a command. -/
def prpPages (mem : UInt64 → List UInt64) (cmd : Sqe) : ℕ → List UInt64
  | 0 => []
  | 1 => [pageOf cmd.prp1]
  | 2 => [pageOf cmd.prp1, cmd.prp2]
  | n + 3 => pageOf cmd.prp1 :: listPages mem (n + 2) cmd.prp2 (n + 2)

/-- The bytes to transfer. -/
def Request.totalBytes (r : Request) : ℕ := r.numBlocks.toNat * r.blockSize.toNat

/-- The number of pages that the buffer touches. -/
def Request.pageCount (r : Request) : ℕ :=
  if r.totalBytes = 0 then 0 else (r.buf.toNat % 0x1000 + r.totalBytes + 0xFFF) / 0x1000

/-- The pages of the buffer, in order. -/
def Request.pages (r : Request) : List UInt64 :=
  (List.range r.pageCount).map fun i => pageOf (r.buf + 0x1000 * i.toUInt64)

/-- The command transfers the blocks to or from the pages of the buffer. -/
def Request.Exact (r : Request) (mem : UInt64 → List UInt64) (cmd : Sqe) : Prop :=
  prpPages mem cmd r.pageCount = r.pages ∧ cmd.cdw12.toNat + 1 = r.numBlocks.toNat

section

variable {r : Request} {prp2 : UInt64}

lemma cdw12_iff (h : r.numBlocks ≠ 0) (cid : UInt16) :
    (r.cmd cid prp2).cdw12.toNat + 1 = r.numBlocks.toNat ↔ r.numBlocks.toNat ≤ 65536 := by
  have hpos : r.numBlocks.toNat ≠ 0 := fun h0 => h (UInt32.toNat_inj.1 h0)
  have hsub : (r.numBlocks - 1).toNat = r.numBlocks.toNat - 1 :=
    UInt32.toNat_sub_of_le _ _ (UInt32.le_iff_toNat_le.2 (Nat.pos_of_ne_zero hpos))
  rw [Request.cmd, UInt32.toNat_toUInt16, hsub]
  omega

/-- A list begins with the third page of the buffer. -/
lemma head?_listPages (hpage : r.page = some prp2) (hr : 2 ≤ r.remainingPages) (n : ℕ)
    (other : UInt64 → List UInt64) :
    (listPages (r.memory other) (n + 1) prp2 (n + 1)).head? = some (r.secondPage + 0x1000) := by
  obtain ⟨k, hk⟩ : ∃ k, min r.remainingPages prpEntries = k + 1 :=
    Nat.exists_eq_succ_of_ne_zero (by simp only [prpEntries]; omega)
  have hmem : ∃ l, r.memory other prp2 = (r.secondPage + 0x1000) :: l := by
    rw [Request.memory, if_pos hpage, Request.prpList, hk]
    exact ⟨_, rfl⟩
  obtain ⟨l, hl⟩ := hmem
  rw [listPages, hl]
  split <;> rfl

/-- **The pages of a command** are those of the buffer exactly if there are at most two. -/
lemma prpPages_iff (cid : UInt16) (hprp2 : r.prp2 = some prp2) (other : UInt64 → List UInt64) :
    prpPages (r.memory other) (r.cmd cid prp2) r.pageCount = r.pages ↔
      r.buf.toNat % 0x1000 + r.totalBytes ≤ 0x2000 := by
  have hoff := Nat.mod_lt r.buf.toNat (show 0 < 0x1000 by decide)
  have hrem : r.remaining = r.totalBytes - (0x1000 - r.buf.toNat % 0x1000) := rfl
  have hrpages : r.remainingPages = (r.remaining + 0xFFF) / 0x1000 := rfl
  have hcount : r.totalBytes = 0 ∧ r.pageCount = 0 ∨ r.totalBytes ≠ 0 ∧
      r.pageCount = (r.buf.toNat % 0x1000 + r.totalBytes + 0xFFF) / 0x1000 := by
    unfold Request.pageCount
    split_ifs with hzero
    · exact .inl ⟨hzero, rfl⟩
    · exact .inr ⟨hzero, rfl⟩
  unfold Request.pages
  match hn : r.pageCount with
  | 0 => exact iff_of_true rfl (by omega)
  | 1 =>
    refine iff_of_true ?_ (by omega)
    simp [prpPages, Request.cmd, List.range_succ]
  | 2 =>
    rw [Request.prp2, if_neg (by omega), if_pos (by omega)] at hprp2
    cases hprp2
    refine iff_of_true ?_ (by omega)
    simp [prpPages, Request.cmd, List.range_succ, Request.secondPage, pageOf]
  | n + 3 =>
    rw [Request.prp2, if_neg (by omega), if_neg (by omega)] at hprp2
    refine iff_of_false (fun heq => ?_) (by omega)
    -- the second page is not in the list
    have hsecond : (listPages (r.memory other) (n + 2) prp2 (n + 2)).head? = some r.secondPage := by
      simpa [prpPages, List.range_succ_eq_map, Request.cmd, Request.secondPage, pageOf] using
        congrArg (fun l => l.tail.head?) heq
    rw [head?_listPages hprp2 (by omega), Option.some.injEq] at hsecond
    simp at hsecond

/-- **The data pointers**: the command for a request transfers its blocks to or from the pages of
the buffer exactly if these are at most two, and the blocks not more than `65536`. -/
theorem exact_iff (h : r.numBlocks ≠ 0) (hprp2 : r.prp2 = some prp2) (cid : UInt16)
    (other : UInt64 → List UInt64) : r.Exact (r.memory other) (r.cmd cid prp2) ↔
      r.buf.toNat % 0x1000 + r.totalBytes ≤ 0x2000 ∧ r.numBlocks.toNat ≤ 65536 :=
  and_congr (prpPages_iff cid hprp2 other) (cdw12_iff h cid)

end

/-- One block is read into one page. -/
theorem exact_readBlock : readBlock.Exact (readBlock.memory fun _ => []) (readBlock.cmd 1 0) :=
  (exact_iff (by decide) rfl 1 _).2 (by decide)

/-- Reading 17 blocks of 512 bytes into three pages. -/
def readPages : Request := ⟨2, 1, 0, 17, 0x1000, 512, some 0x8000⟩

/-- The second page is left out. -/
theorem not_exact_readPages : readPages.prp2 = some 0x8000 ∧
    ¬ readPages.Exact (readPages.memory fun _ => []) (readPages.cmd 1 0x8000) := by
  have hprp2 : readPages.prp2 = some 0x8000 := by decide +kernel
  refine ⟨hprp2, fun h => ?_⟩
  have htwo := (prpPages_iff 1 hprp2 _).1 h.1
  revert htwo
  decide

end Aurora.Nvme
