import Aurora.Kernel.JournalScan

/-!
# Crashes during a commit

Until `advance_head` has run, the superblock on the device names the old head, so
recovery scans the log as it was before the commit and never reaches the transaction.
A transaction is therefore installed by recovery only if the old log already installs
it.

## Main definitions

* `openTxn`: `journal_begin` and a successful `journal_write` for each block.
* `CrashAtomic`: a crash after any block write leaves all blocks old or all new, and all
  new once the commit record is written.
* `Redundant`: the log before the commit already installs the transaction.
-/

namespace Aurora.Journal

open Lib List Option

/-! ## Statements -/

/-- A transaction: block numbers and contents. -/
abbrev Txn := List (ℕ × List UInt8)

/-- A successful `journal_write`. -/
def addBlock (g : Handle) (e : ℕ × List UInt8) : Option Handle :=
  let written := journalWrite g e.1 e.2 true
  if written.1 = 0 then some written.2 else none

/-- `journal_begin` followed by one `journal_write` for each block, all successful. -/
def openTxn (g : Handle) (maxBlocks : ℕ) (t : Txn) : Option Handle :=
  let begun := journalBegin g maxBlocks true
  if begun.1 = 0 then t.foldlM addBlock begun.2 else none

/-- The contents of a block of the filesystem. -/
def blockAt (g : Geometry) (disk : Disk) (b : ℕ) : List UInt8 :=
  slice disk (b * g.blockBytes) g.blockBytes

/-- What the transaction last writes to a block. -/
def newData (t : Txn) (b : ℕ) : List UInt8 :=
  ((t.reverse.find? fun e => e.1 = b).map Prod.snd).getD []

def AllOld (g : Geometry) (t : Txn) (before disk : Disk) : Prop :=
  ∀ e ∈ t, blockAt g disk e.1 = blockAt g before e.1

def AllNew (g : Geometry) (t : Txn) (disk : Disk) : Prop :=
  ∀ e ∈ t, blockAt g disk e.1 = newData t e.1

/-- Crash atomicity of one commit: recovery from each image the device goes through leaves
the blocks all old or all new, and all new once the commit record has been written. -/
def CrashAtomic (g : Handle) (t : Txn) (before : Disk) (beyond stack : List UInt8) : Prop :=
  ∀ c ∈ journalCommit g before stack, ∃ disk, journalRecover g beyond c.2 = some disk ∧
    (AllOld g.toGeometry t before disk ∨ AllNew g.toGeometry t disk) ∧
    (c.1 = true → AllNew g.toGeometry t disk)

/-- Scanning the log that is on the device before the commit leaves every block of the
transaction with the contents the transaction is about to give it. -/
def Redundant (g : Handle) (t : Txn) (before : Disk) (beyond : List UInt8) : Prop :=
  ∃ disk, scan g.toGeometry beyond g.head (g.head + 1) g.tail before = some disk ∧
    AllNew g.toGeometry t disk

/-- The blocks the commit uses: the journal area, and what its records take past the end of
the area. -/
def areaOf (g : Handle) (t : Txn) : ℕ := max g.journalBlocks (g.head + 1 + t.length + 1)

/-- The device holds the journal and the transaction's blocks, which lie outside the
journal; block 0 of the journal is left to the superblock. -/
structure Fits (g : Handle) (t : Txn) : Prop where
  geometry : GeometryOk g.toGeometry (areaOf g t)
  head_pos : 1 ≤ g.head
  tail_pos : 1 ≤ g.tail
  tail_lt : g.tail < 2 ^ 64
  area_lt : areaOf g t < 2 ^ 63
  nonempty : t ≠ []
  outside : ∀ e ∈ t, Outside g.toGeometry (areaOf g t) e.1
  data_length : ∀ e ∈ t, e.2.length = g.blockSize

/-! ## The open transaction -/

/-- What the handle holds when the transaction is committed. -/
structure Opened (g : Handle) (t : Txn) : Prop where
  initialized : g.initialized = true
  inTransaction : g.inTransaction = true
  txn_eq : g.txn = t.map fun e => (e.1 % 2 ^ 32, e.2)
  capacity : g.txn.length ≤ (g.blockSize - 36) / 20

lemma opened_addBlock {g g' : Handle} {done : Txn} {e : ℕ × List UInt8} (h : Opened g done)
    (hcap : g.txnCapacity ≤ (g.blockSize - 36) / 20) (hadd : addBlock g e = some g') :
    Opened g' (done ++ [e]) ∧ g'.txnCapacity ≤ (g'.blockSize - 36) / 20 := by
  simp only [addBlock, journalWrite, h.initialized, h.inTransaction, Bool.not_true, Bool.or_self,
    Bool.false_eq_true, if_false, if_true] at hadd
  by_cases hroom : g.txn.length ≥ g.txnCapacity
  · simp [hroom] at hadd
  · rw [if_neg hroom, if_pos rfl] at hadd
    cases hadd
    refine ⟨⟨rfl, rfl, ?_, ?_⟩, hcap⟩
    · simp [h.txn_eq]
    · simp only [length_append, length_cons, length_nil]
      omega

lemma opened_foldlM {t : Txn} {g g' : Handle} {done : Txn} (h : Opened g done)
    (hcap : g.txnCapacity ≤ (g.blockSize - 36) / 20) (hrun : t.foldlM addBlock g = some g') :
    Opened g' (done ++ t) := by
  induction t generalizing g done with
  | nil =>
    cases hrun
    simpa using h
  | cons e t ih =>
    obtain ⟨_, hadd, hrun⟩ := bind_eq_some_iff.1 hrun
    obtain ⟨h1, hcap1⟩ := opened_addBlock h hcap hadd
    rw [append_cons]
    exact ih h1 hcap1 hrun

lemma opened_of_openTxn {g0 g : Handle} {maxBlocks : ℕ} {t : Txn}
    (h : openTxn g0 maxBlocks t = some g) : Opened g t := by
  unfold openTxn journalBegin at h
  by_cases hinit : g0.initialized = true
  swap
  · simp [hinit] at h
  by_cases htxn : g0.inTransaction = true
  · simp [hinit, htxn] at h
  simp only [hinit, htxn, Bool.not_true, Bool.false_eq_true, if_false, if_true] at h
  rw [← nil_append t]
  refine opened_foldlM ⟨rfl, rfl, rfl, Nat.zero_le _⟩ ?_ h
  dsimp only
  split_ifs <;> omega

/-! ## The images of a commit -/

variable {g : Geometry} {D D' X Y : Disk} {w : Write} {ws ws1 ws2 : List Write}
  {J : ℕ → Prop} {P : ℕ → UInt8 → Prop}

/-- A write that succeeds. -/
def applyWrite (g : Geometry) (disk : Disk) (w : Write) : Disk :=
  blit disk (w.sector * g.bdev.blockSize) (w.data.take (g.sectorsPerBlock * g.bdev.blockSize))

lemma applyWrite_eq (h : w.data.length = g.blockBytes) :
    applyWrite g D w = blit D (w.sector * g.bdev.blockSize) w.data := by
  rw [applyWrite, ← Geometry.blockBytes, take_of_length_le h.le]

lemma issue_cons (hw : g.bdev.inRange w.sector g.sectorsPerBlock = true) :
    issue g D (w :: ws) = ((w.committed, applyWrite g D w) :: (issue g (applyWrite g D w) ws).1,
      (issue g (applyWrite g D w) ws).2) := by
  rw [issue, blockDevWrite, if_pos hw]
  rfl

/-- When all writes succeed, the device ends up with all of them. -/
lemma issue_snd (h : ∀ w ∈ ws, g.bdev.inRange w.sector g.sectorsPerBlock = true) :
    (issue g D ws).2 = some (ws.foldl (applyWrite g) D) := by
  induction ws generalizing D with
  | nil => rfl
  | cons w ws ih =>
    rw [issue_cons (h w mem_cons_self)]
    exact ih fun v hv => h v (mem_cons_of_mem w hv)

/-- The image after a write is one of the images of the commit. -/
lemma mem_issue (h : ∀ v ∈ ws1 ++ [w], g.bdev.inRange v.sector g.sectorsPerBlock = true) :
    (w.committed, (ws1 ++ [w]).foldl (applyWrite g) D) ∈ (issue g D (ws1 ++ w :: ws2)).1 := by
  induction ws1 generalizing D with
  | nil =>
    rw [nil_append, issue_cons (h w (by simp))]
    exact mem_cons_self
  | cons v ws1 ih =>
    rw [cons_append, issue_cons (h v (by simp))]
    refine mem_cons_of_mem _ (ih fun u hu => h u ?_)
    exact mem_cons_of_mem v hu

/-- Every image is the one after some write. -/
lemma exists_of_mem_issue {c : Bool × Disk}
    (h : ∀ v ∈ ws, g.bdev.inRange v.sector g.sectorsPerBlock = true)
    (hc : c ∈ (issue g D ws).1) :
    ∃ ws1 w ws2, ws = ws1 ++ w :: ws2 ∧ c = (w.committed, (ws1 ++ [w]).foldl (applyWrite g) D) := by
  induction ws generalizing D with
  | nil => cases hc
  | cons v ws ih =>
    rw [issue_cons (h v mem_cons_self)] at hc
    rcases mem_cons.1 hc with rfl | hc
    · exact ⟨[], v, ws, rfl, rfl⟩
    · obtain ⟨ws1, w, ws2, rfl, rfl⟩ := ih (fun u hu => h u (mem_cons_of_mem v hu)) hc
      exact ⟨v :: ws1, w, ws2, rfl, rfl⟩

/-- The bytes a write may change. -/
def Write.Covers (g : Geometry) (w : Write) (x : ℕ) : Prop :=
  w.sector * g.bdev.blockSize ≤ x ∧ x < w.sector * g.bdev.blockSize + g.blockBytes

variable {x : ℕ}

lemma applyWrite_of_not_covers (h : ¬ w.Covers g x) : applyWrite g D w x = D x := by
  by_cases hlt : x < w.sector * g.bdev.blockSize
  · exact blit_of_lt hlt
  · refine blit_of_ge ?_
    simp only [Write.Covers, Geometry.blockBytes, not_and] at h
    rw [length_take]
    omega

lemma foldl_applyWrite_of_not_covers (h : ∀ w ∈ ws, ¬ w.Covers g x) :
    ws.foldl (applyWrite g) D x = D x := by
  induction ws generalizing D with
  | nil => rfl
  | cons w ws ih =>
    rw [foldl_cons, ih fun v hv => h v (mem_cons_of_mem w hv)]
    exact applyWrite_of_not_covers (h w mem_cons_self)

/-- A write that touches nothing in `J` and leaves only what `P` allows. -/
def Write.Harmless (g : Geometry) (J : ℕ → Prop) (P : ℕ → UInt8 → Prop) (w : Write) : Prop :=
  ∀ x, w.Covers g x → ¬ J x ∧ ∀ D, P x (applyWrite g D w x)

lemma Sim.foldl_applyWrite (h : Sim J P X Y) (hws : ∀ w ∈ ws, w.Harmless g J P) :
    Sim J P X (ws.foldl (applyWrite g) Y) := by
  induction ws generalizing Y with
  | nil => exact h
  | cons w ws ih =>
    refine ih ?_ fun v hv => hws v (mem_cons_of_mem w hv)
    have hw := hws w mem_cons_self
    constructor <;> intro x
    · intro hx
      rw [applyWrite_of_not_covers fun hcov => (hw x hcov).1 hx]
      exact h.agree x hx
    · by_cases hcov : w.Covers g x
      · exact .inr ((hw x hcov).2 Y)
      · rw [applyWrite_of_not_covers hcov]
        exact h.differ x

/-! ## Reading records back -/

lemma length_jsbFields (g : Handle) : (jsbFields g).length = 56 := by
  simp [jsbFields]

lemma length_jsbBlock {g : Handle} (h : 512 ≤ g.blockSize) : (jsbBlock g).length = g.blockSize := by
  simp only [jsbBlock, length_append, length_jsbFields, length_toLE, length_replicate]
  omega

/-- Where the head and the tail stand in the superblock. -/
lemma jsbBlock_eq (g : Handle) : ∃ xs ys, xs.length = 28 ∧
    jsbBlock g = xs ++ (toLE 8 g.head ++ (toLE 8 g.tail ++ ys)) := by
  refine ⟨toLE 4 magicSb ++ (toLE 4 g.blockSize ++ (toLE 4 0 ++
    (toLE 8 g.journalStart ++ toLE 8 g.journalBlocks))), toLE 8 g.sequence ++
    (toLE 4 (if g.dirty then 1 else 0) ++ (toLE 4 (calcChecksum (jsbFields g)).toNat ++
      List.replicate (g.blockSize - 60) 0)), by simp, ?_⟩
  simp only [jsbBlock, jsbFields, append_assoc]

lemma field_jsbBlock_head {g : Handle} (h : g.head < 2 ^ 64) :
    field (jsbBlock g) 28 8 = g.head := by
  obtain ⟨_, _, hlen, hsplit⟩ := jsbBlock_eq g
  rw [hsplit]
  exact field_append hlen (by omega)

lemma field_jsbBlock_tail {g : Handle} (h : g.tail < 2 ^ 64) :
    field (jsbBlock g) 36 8 = g.tail := by
  obtain ⟨_, _, hlen, hsplit⟩ := jsbBlock_eq g
  rw [hsplit, ← append_assoc]
  exact field_append (by simp [hlen]) (by omega)

/-- A block that was written is read back. -/
lemma readBlock_applyWrite {off : ℕ} (hsector : w.sector = g.journalSector off)
    (hrange : g.bdev.inRange (g.journalSector off) g.sectorsPerBlock = true)
    (hlen : w.data.length = g.blockBytes) : g.readBlock (applyWrite g D w) off = some w.data := by
  rw [Geometry.readBlock, blockDevRead, if_pos hrange, applyWrite_eq hlen, hsector,
    ← Geometry.blockBytes, ← hlen, slice_blit]

/-- Recovery from an image whose superblock is that of `h`: the scan, and a write to the
superblock. -/
lemma journalRecover_eq {g h : Handle} (beyond : List UInt8)
    (hread : g.readBlock D 0 = some (jsbBlock h)) (hhead : h.head < 2 ^ 64)
    (htail : h.tail < 2 ^ 64) :
    ∃ data, journalRecover g beyond D =
      (scan g.toGeometry beyond h.head (h.head + 1) h.tail D).map fun disk =>
        (blockDevWrite g.bdev disk data (g.journalSector 0) g.sectorsPerBlock).getD disk := by
  set seq := field (jsbBlock h) 44 8 with hseq
  refine ⟨jsbBlock { g with head := h.head, tail := h.head, sequence := seq, dirty := false }, ?_⟩
  rw [journalRecover, hread]
  simp only [bind_eq_bind, bind_some, field_jsbBlock_head hhead,
    field_jsbBlock_tail htail, ← hseq]
  cases scan g.toGeometry beyond h.head (h.head + 1) h.tail D <;> rfl

lemma Sim.symm {Q : ℕ → Prop} (h : Sim J (fun x _ => Q x) X Y) : Sim J (fun x _ => Q x) Y X :=
  ⟨fun x hx => (h.agree x hx).symm, fun x => (h.differ x).imp_left Eq.symm⟩

/-! ## Where the writes of a commit go -/

variable {o : ℕ}

lemma GeometryOk.inBlock_unique {area o' : ℕ} (hg : GeometryOk g area) (ho : o < area)
    (ho' : o' < area) (hx : InBlock g o x) (hx' : InBlock g o' x) : o = o' := by
  rw [hg.inBlock_iff ho] at hx
  rw [hg.inBlock_iff ho'] at hx'
  by_contra hne
  have := block_disjoint (show g.journalStart + o ≠ g.journalStart + o' by omega) hx.1 hx.2
  omega

/-- A byte of a block outside the journal is not a byte of the journal. -/
lemma GeometryOk.not_inBlock {area b : ℕ} (hg : GeometryOk g area)
    (hb : b < g.journalStart ∨ g.journalStart + area ≤ b) (ho : o < area)
    (hx : b * g.blockBytes ≤ x) (hx' : x < (b + 1) * g.blockBytes) : ¬ InBlock g o x := by
  intro hin
  rw [hg.inBlock_iff ho] at hin
  have := block_disjoint (show b ≠ g.journalStart + o by omega) hx hx'
  omega

variable {w : Write}

section Commit

variable {g : Handle} {t : Txn} {before : Disk} {beyond stack : List UInt8}

lemma lt_areaOf (g : Handle) (t : Txn) : g.head + 1 + t.length < areaOf g t :=
  Nat.lt_of_succ_le (le_max_right _ _)

/-- The handle while the records are written. -/
def committing (g : Handle) : Handle := { g with sequence := g.sequence + 1, dirty := true }

/-- The records are written, the commit record last. -/
def logRecords (g : Handle) (stack : List UInt8) : List Write :=
  logWrites (committing g) g.sequence ++ [commitWrite (committing g) g.sequence stack]

/-- With room in the journal, the head moves on and the tail stays. -/
lemma advanceHead_of_room {g : Handle} {n : ℕ} (htail : 1 ≤ g.tail)
    (hroom : g.head + n < g.journalBlocks) (hlt : g.tail + g.journalBlocks ≤ 2 ^ 64) (D : Disk) :
    advanceHead g D n = some { g with head := g.head + n } := by
  have hevict : evict { g with head := g.head + n } D (g.head + n + 3) g.tail = some g.tail := by
    rw [evict, Nat.mod_eq_of_lt (by dsimp only; omega), if_neg (by dsimp only; omega)]
  unfold advanceHead
  dsimp only
  rw [hevict]
  exact if_neg (by omega)

/-- The blocks of the journal that a commit writes: the superblock and the blocks from the
head on. -/
def CommitArea (g : Handle) (t : Txn) (x : ℕ) : Prop :=
  ∃ o, (o = 0 ∨ g.head ≤ o) ∧ o < areaOf g t ∧ InBlock g.toGeometry o x

lemma length_txn (ho : Opened g t) : g.txn.length = t.length := by
  simp [ho.txn_eq]

/-- The record that a commit writes to a block of the log. -/
def recordAt (g : Handle) (stack : List UInt8) (o : ℕ) : List UInt8 :=
  if o = g.head then descBlock (committing g) g.sequence
  else if o = g.head + 1 + g.txn.length then commitBlock g.sequence stack
  else ((g.txn[o - (g.head + 1)]?).map Prod.snd).getD []

/-- The writes up to the commit record are those of the records. -/
lemma mem_logWrites (hw : w ∈ logRecords g stack) :
    ∃ o, g.head ≤ o ∧ o ≤ g.head + 1 + g.txn.length ∧ w.sector = g.journalSector o ∧
      w.data = recordAt g stack o := by
  simp only [logRecords, logWrites, mem_append, mem_cons, mem_mapIdx, not_mem_nil, or_false] at hw
  rcases hw with (rfl | ⟨i, hi, rfl⟩) | rfl
  · exact ⟨g.head, le_rfl, by omega, rfl, by simp [recordAt]⟩
  · have hi' : i < g.txn.length := hi
    refine ⟨g.head + 1 + i, by omega, by omega, rfl, ?_⟩
    rw [recordAt, if_neg (by omega), if_neg (by omega), Nat.add_sub_cancel_left,
      List.getElem?_eq_getElem hi']
    rfl
  · refine ⟨g.head + 1 + g.txn.length, by omega, le_rfl, rfl, ?_⟩
    rw [recordAt, if_neg (by omega), if_pos rfl]
    rfl

/-- The records are written from the head on. -/
lemma logWrites_sector (ho : Opened g t) (hw : w ∈ logRecords g stack) :
    ∃ o, g.head ≤ o ∧ o < areaOf g t ∧ w.sector = g.journalSector o := by
  obtain ⟨o, hlo, hhi, hsector, -⟩ := mem_logWrites hw
  have hlen := length_txn ho
  have harea := lt_areaOf g t
  exact ⟨o, hlo, by omega, hsector⟩

/-- These writes leave the old log alone. -/
lemma harmless_of_sector (hf : Fits g t) {P : ℕ → UInt8 → Prop} (ho : o = 0 ∨ g.head ≤ o)
    (ho' : o < areaOf g t) (hsector : w.sector = g.journalSector o)
    (hP : ∀ x v, CommitArea g t x → P x v) :
    w.Harmless g.toGeometry (LogBytes g.toGeometry g.tail g.head) P := by
  intro x hx
  have hin : InBlock g.toGeometry o x := by
    rwa [Write.Covers, hsector] at hx
  refine ⟨?_, fun D => hP x _ ⟨o, ho, ho', hin⟩⟩
  rintro ⟨_, hlo, hhi, hin'⟩
  have harea := lt_areaOf g t
  have heq := hf.geometry.inBlock_unique ho' (by omega) hin hin'
  have := hf.tail_pos
  omega

/-- A write from the head on leaves the superblock alone. -/
lemma not_inBlock_zero (hf : Fits g t) (hlo : g.head ≤ o) (ho : o < areaOf g t)
    (hsector : w.sector = g.journalSector o) (x : ℕ) (hx : w.Covers g.toGeometry x) :
    ¬ InBlock g.toGeometry 0 x := by
  intro hin
  rw [Write.Covers, hsector] at hx
  have := hf.geometry.inBlock_unique ho (by omega) hx hin
  have := hf.head_pos
  omega

/-- The superblock that was written first is on the device as long as the later writes
leave it alone. -/
lemma readBlock_jsb {ws : List Write} (hf : Fits g t)
    (hws : ∀ w ∈ ws, ∀ x, w.Covers g.toGeometry x → ¬ InBlock g.toGeometry 0 x) {h : Handle}
    (hh : h.toGeometry = g.toGeometry) {b : Bool} :
    g.readBlock ((jsbWrite h b :: ws).foldl (applyWrite g.toGeometry) before) 0
      = some (jsbBlock h) := by
  have hpos : 0 < areaOf g t := by
    have harea := lt_areaOf g t
    omega
  have hframe : ∀ x, InBlock g.toGeometry 0 x →
      (jsbWrite h b :: ws).foldl (applyWrite g.toGeometry) before x =
        applyWrite g.toGeometry before (jsbWrite h b) x := fun x hx =>
    foldl_applyWrite_of_not_covers fun w hw hcov => hws w hw x hcov hx
  rw [readBlock_congr hframe]
  refine readBlock_applyWrite ?_ (hf.geometry.inRange_journalSector hpos) ?_
  · rw [jsbWrite, hh]
  · have hbytes := hf.geometry.blockBytes_eq
    have hblock := hf.geometry.block_ge
    rw [hbytes, ← hh] at *
    exact length_jsbBlock hblock

lemma blockAt_congr {G : Geometry} {X Y : Disk} {b : ℕ}
    (h : ∀ x, b * G.blockBytes ≤ x → x < (b + 1) * G.blockBytes → Y x = X x) :
    blockAt G Y b = blockAt G X b := by
  refine slice_congr fun i hi => h _ (Nat.le_add_right _ _) ?_
  rw [Nat.succ_mul]
  omega

/-- A block after one block is written. -/
lemma blockAt_blit {G : Geometry} {e : ℕ × List UInt8} (he : e.2.length = G.blockBytes) (D : Disk)
    (b : ℕ) :
    blockAt G (blit D (e.1 * G.blockBytes) e.2) b = if e.1 = b then e.2 else blockAt G D b := by
  split
  · rename_i hb
    rw [blockAt, ← hb, ← he]
    exact slice_blit D _ e.2
  · rename_i hb
    refine blockAt_congr fun x hlow hhigh => ?_
    rcases block_disjoint (Ne.symm hb) hlow hhigh with hlt | hge
    · exact blit_of_lt hlt
    · refine blit_of_ge (le_trans ?_ hge)
      rw [he, Nat.succ_mul]

/-- The last write of a recovery does not touch the transaction's blocks. -/
lemma blockAt_recovered (hf : Fits g t) {e : ℕ × List UInt8} (he : e ∈ t) (disk : Disk)
    (data : List UInt8) :
    blockAt g.toGeometry ((blockDevWrite g.bdev disk data (g.journalSector 0)
      g.sectorsPerBlock).getD disk) e.1 = blockAt g.toGeometry disk e.1 := by
  have hpos : 0 < areaOf g t := by
    have harea := lt_areaOf g t
    omega
  unfold blockDevWrite
  split
  · refine blockAt_congr fun x hx hx' => ?_
    have hnot := hf.geometry.not_inBlock (hf.outside e he).apart hpos hx hx'
    exact applyWrite_of_not_covers (w := ⟨g.journalSector 0, data, false, false⟩) hnot
  · rfl

lemma mem_journalCommit (ho : Opened g t) (hf : Fits g t) {c : Bool × Disk}
    (hc : c ∈ (issue g.toGeometry before
      (commitWrites (committing g) g.sequence stack)).1) : c ∈ journalCommit g before stack := by
  have htxn : g.txn ≠ [] := by
    rw [ho.txn_eq]
    simpa using hf.nonempty
  unfold journalCommit
  rw [if_neg (by simp [ho.initialized, ho.inTransaction]), if_neg htxn]
  dsimp only
  split
  · exact hc
  · split
    · exact hc
    · exact mem_append_left _ hc

/-- Recovery after the commit record has been written is a scan of the old log. -/
lemma redundant_of_crashAtomic (ho : Opened g t) (hf : Fits g t)
    (h : CrashAtomic g t before beyond stack) : Redundant g t before beyond := by
  have harea := lt_areaOf g t
  have hlt := hf.area_lt
  set ws := logRecords g stack
  set D := (jsbWrite (committing g) false :: ws).foldl (applyWrite g.toGeometry) before
  have hsector : ∀ v ∈ ws, ∃ o, g.head ≤ o ∧ o < areaOf g t ∧ v.sector = g.journalSector o :=
    fun v hv => logWrites_sector ho hv
  have hrange : ∀ v ∈ jsbWrite (committing g) false :: ws,
      g.bdev.inRange v.sector g.sectorsPerBlock = true := by
    refine forall_mem_cons.2 ⟨hf.geometry.inRange_journalSector (by omega), ?_⟩
    intro v hv
    obtain ⟨o, -, hoff, heq⟩ := hsector v hv
    rw [heq]
    exact hf.geometry.inRange_journalSector hoff
  have hcommit : (true, D) ∈ journalCommit g before stack := by
    refine mem_journalCommit ho hf (mem_issue (show ∀ v ∈ (jsbWrite (committing g) false ::
      logWrites (committing g) g.sequence) ++ [commitWrite (committing g) g.sequence stack],
      g.bdev.inRange v.sector g.sectorsPerBlock = true from hrange))
  obtain ⟨_, hrecover, -, hnew⟩ := h _ hcommit
  -- the superblock on the device still has the old head
  have hjsb : g.readBlock D 0 = some (jsbBlock (committing g)) := by
    refine readBlock_jsb (h := committing g) hf (fun v hv => ?_) rfl
    obtain ⟨o, hlo, hoff, heq⟩ := hsector v hv
    exact not_inBlock_zero hf hlo hoff heq
  obtain ⟨_, heq⟩ := journalRecover_eq beyond hjsb (show g.head < 2 ^ 64 by omega)
    (show g.tail < 2 ^ 64 from hf.tail_lt)
  rw [heq] at hrecover
  obtain ⟨Y, hscan, rfl⟩ := map_eq_some_iff.1 hrecover
  have hsim : Sim (LogBytes g.toGeometry g.tail g.head) (fun x _ => CommitArea g t x) before D := by
    refine Sim.foldl_applyWrite ⟨fun _ _ => rfl, fun _ => .inl rfl⟩ ?_
    refine forall_mem_cons.2 ⟨?_, fun v hv => ?_⟩
    · exact harmless_of_sector hf (.inl rfl) (by omega) rfl fun x _ hx => hx
    · obtain ⟨o, hlo, hoff, heq⟩ := hsector v hv
      exact harmless_of_sector hf (.inr hlo) hoff heq fun x _ hx => hx
  obtain ⟨X, hscanX, hsimX⟩ := scan_sim hsim.symm (fun x hx => hx) (by omega) le_rfl hscan
  refine ⟨X, hscanX, fun e he => ?_⟩
  have hnewY := hnew rfl e he
  rw [blockAt_recovered hf he] at hnewY
  rw [← hnewY]
  refine blockAt_congr fun x hx hx' => ?_
  rcases hsimX.differ x with heq | ⟨o, -, hoff, hin⟩
  · exact heq
  · exact absurd hin (hf.geometry.not_inBlock (hf.outside e he).apart hoff hx hx')

end Commit

end Aurora.Journal
