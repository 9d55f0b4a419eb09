import Aurora.Lib.Run
import Aurora.Kernel.JournalRedundant

/-!
# Histories of transactions

Transactions are opened, filled and committed or rolled back, one after the other. As long as
their records stay within the journal area, the blocks of the filesystem hold what the committed
transactions have last written to them.

## Main definitions

* `commitCall`, `journalRollback`: the calls, with what they return.
* `writeBlocks`, `newest`: blocks that are written one after the other, and what is then in them.
* `Sys`, `Op`, `step`: a history, with the accepted writes of the open transaction and those of
  the committed ones.
* `committed_blocks`: the blocks of the filesystem after any history.
-/

namespace Aurora.Journal

variable {g : Handle}

open Lib Function List

/-! ## The calls -/

/-- `free_transaction`. -/
def freeTransaction (g : Handle) : Handle :=
  { g with txn := [], txnCapacity := 0, inTransaction := false }

/-- The last of the images, or the device as it was. -/
def lastImage (disk : Disk) (images : List (Bool × Disk)) : Disk :=
  ((images.getLast?).map Prod.snd).getD disk

/-- `journal_commit`, with its result and the device it leaves; `none` if it does not return. -/
def commitCall (g : Handle) (disk : Disk) (stack : List UInt8) : Option (ℤ × Handle × Disk) :=
  if !g.initialized || !g.inTransaction then some (-1, g, disk)
  else if g.txn = [] then some (0, freeTransaction g, disk)
  else
    let g' := committing g
    let result := issue g'.toGeometry disk (commitWrites g' g.sequence stack)
    match result.2 with
    | none => some (-1, freeTransaction g', lastImage disk result.1)
    | some disk =>
      match advanceHead g' disk (1 + g'.txn.length + 1) with
      | none => none
      | some g' =>
        let clean := { g' with dirty := false }
        some (0, freeTransaction clean,
          lastImage disk (issue g'.toGeometry disk [jsbWrite g' true, jsbWrite clean true]).1)

/-- `journal_rollback`. -/
def journalRollback (g : Handle) : ℤ × Handle :=
  if !g.initialized || !g.inTransaction then (-1, g) else (0, freeTransaction g)

/-! ## Blocks that are written one after the other -/

variable {G : Geometry} {D : Disk} {t u : Txn} {b : ℕ} {ws : List Write}

/-- The device after the blocks are written in order. -/
def writeBlocks (g : Geometry) (disk : Disk) (t : Txn) : Disk :=
  t.foldl (fun disk e => blit disk (e.1 * g.blockBytes) e.2) disk

/-- What was last written to a block, or `old` if nothing was. -/
def newest (t : Txn) (b : ℕ) (old : List UInt8) : List UInt8 :=
  ((t.reverse.find? fun e => e.1 = b).map Prod.snd).getD old

@[simp] lemma newest_nil (b : ℕ) (old : List UInt8) : newest [] b old = old := rfl

lemma newest_append (t u : Txn) (b : ℕ) (old : List UInt8) :
    newest (t ++ u) b old = newest u b (newest t b old) := by
  rw [newest, reverse_append, find?_append]
  cases h : u.reverse.find? fun e => e.1 = b <;> simp [newest, h]

lemma newest_singleton (e : ℕ × List UInt8) (b : ℕ) (old : List UInt8) :
    newest [e] b old = if e.1 = b then e.2 else old := by
  by_cases h : e.1 = b <;> simp [newest, h]

/-- **The blocks hold what was last written to them.** -/
lemma blockAt_writeBlocks (ht : ∀ e ∈ t, e.2.length = G.blockBytes) (D : Disk) (b : ℕ) :
    blockAt G (writeBlocks G D t) b = newest t b (blockAt G D b) := by
  induction t generalizing D with
  | nil => rfl
  | cons e t ih =>
    have hcons : writeBlocks G D (e :: t) = writeBlocks G (blit D (e.1 * G.blockBytes) e.2) t := rfl
    simp [hcons, ih fun f hf => ht f (mem_cons_of_mem e hf), blockAt_blit (ht e mem_cons_self),
      ← newest_singleton, ← newest_append]

/-- Writes to other places leave a block alone. -/
lemma blockAt_foldl_applyWrite
    (h : ∀ w ∈ ws, ∀ x, b * G.blockBytes ≤ x → x < (b + 1) * G.blockBytes → ¬ w.Covers G x) :
    blockAt G (ws.foldl (applyWrite G) D) b = blockAt G D b :=
  blockAt_congr fun x hlow hhigh =>
    foldl_applyWrite_of_not_covers fun w hw => h w hw x hlow hhigh

/-- The images end with the device after all writes. -/
lemma lastImage_issue (h : ∀ w ∈ ws, G.bdev.inRange w.sector G.sectorsPerBlock = true)
    (D : Disk) : lastImage D (issue G D ws).1 = ws.foldl (applyWrite G) D := by
  induction ws generalizing D with
  | nil => rfl
  | cons w ws ih =>
    have hih := ih (fun v hv => h v (mem_cons_of_mem w hv)) (applyWrite G D w)
    rw [issue_cons (h w mem_cons_self), foldl_cons, ← hih]
    cases (issue G (applyWrite G D w) ws).1 with
    | nil => rfl
    | cons c cs =>
      rw [lastImage, lastImage, getLast?_cons_cons,
        getLast?_eq_some_getLast (cons_ne_nil c cs)]
      rfl

/-! ## Histories -/

/-- The journal and the device; and, for the statements only, the writes that the open transaction
has accepted, those of the committed transactions in order, and the result of the last call. -/
structure Sys where
  handle : Handle
  disk : Disk
  pending : Txn
  done : Txn
  result : ℤ

/-- The calls. -/
inductive Op where
  | begin (maxBlocks : ℕ) (kmallocOk : Bool)
  | write (fsBlock : ℕ) (data : List UInt8) (kmallocOk : Bool)
  | commit (stack : List UInt8)
  | rollback

/-- One call. -/
def step (s : Sys) : Op → Option Sys
  | .begin maxBlocks ok =>
    let r := journalBegin s.handle maxBlocks ok
    some { s with handle := r.2, result := r.1 }
  | .write fsBlock data ok =>
    let r := journalWrite s.handle fsBlock data ok
    some { s with handle := r.2, result := r.1,
                  pending := if r.1 = 0 then s.pending ++ [(fsBlock, data)] else s.pending }
  | .commit stack =>
    match commitCall s.handle s.disk stack with
    | none => none
    | some r =>
      some { handle := r.2.1, disk := r.2.2, result := r.1, pending := [],
             done := if r.1 = 0 then s.done ++ s.pending else s.done }
  | .rollback =>
    let r := journalRollback s.handle
    some { s with handle := r.2, result := r.1, pending := [] }

/-- The journal before the first call. -/
def start (g : Handle) (disk : Disk) : Sys := ⟨g, disk, [], [], 0⟩

/-- A block of the filesystem is not in the journal area. -/
def Apart (g : Geometry) (b : ℕ) : Prop :=
  b < g.journalStart ∨ g.journalStart + g.journalBlocks ≤ b

/-- A block that may be written: it is on the device, not in the journal area, and its sector
number fits into 32 bits. -/
structure Placed (g : Geometry) (e : ℕ × List UInt8) : Prop where
  outside : Outside g g.journalBlocks e.1
  narrow : e.1 * g.sectorsPerBlock < 2 ^ 32
  length : e.2.length = g.blockSize

/-- A descriptor announces so many blocks that the size of its transaction comes to 0. -/
def Stuck (g : Geometry) (disk : Disk) (offset : ℕ) : Prop :=
  ∃ block, g.readBlock disk offset = some block ∧ field block 0 4 = magicDesc ∧
    field block 12 4 = 2 ^ 32 - 2

/-- The log does not wrap around at the commit of `n` blocks, and `advance_head` gets past the
oldest records on the device if it has to give them up. -/
structure Fitting (g : Handle) (n : ℕ) (disk : Disk) : Prop where
  room : g.head + n + 2 ≤ g.journalBlocks
  tail : g.tail + g.journalBlocks + 2 ^ 32 < 2 ^ 64
  passes : g.tail + g.journalBlocks ≤ g.head + n + 3 →
    ∀ o, g.tail ≤ o → o ≤ 1 → ¬ Stuck g.toGeometry disk o

/-- The device with the records and the blocks of the transaction. -/
def logged (g : Handle) (disk : Disk) (stack : List UInt8) : Disk :=
  (commitWrites (committing g) g.sequence stack).foldl (applyWrite g.toGeometry) disk

/-- The calls of a history in which the log does not wrap around. -/
def Unwrapped (s : Sys) : Op → Prop
  | .write fsBlock data _ => Placed s.handle.toGeometry (fsBlock, data)
  | .commit stack =>
    s.pending ≠ [] → Fitting s.handle s.pending.length (logged s.handle s.disk stack)
  | _ => True

/-- **The invariant**: the handle has the accepted writes, and the blocks of the filesystem hold
what was last committed to them. -/
structure Synced (G : Geometry) (orig : Disk) (s : Sys) : Prop where
  geometry : s.handle.toGeometry = G
  initialized : s.handle.initialized = true
  idle : s.handle.inTransaction = false → s.pending = []
  txn : s.handle.inTransaction = true → s.handle.txn = s.pending.map fun e => (e.1 % 2 ^ 32, e.2)
  placed : ∀ e ∈ s.pending, Placed G e
  blocks : ∀ b, Apart G b → blockAt G s.disk b = newest s.done b (blockAt G orig b)

variable {s : Sys} {orig : Disk} {op : Op} {stack : List UInt8}

lemma Placed.mod_eq {e : ℕ × List UInt8} (h : Placed G e) (hg : GeometryOk G G.journalBlocks) :
    e.1 % 2 ^ 32 = e.1 :=
  Nat.mod_eq_of_lt (hg.lt_of_sector_lt h.narrow)

/-- The checkpoint writes the blocks of the transaction, one after the other. -/
lemma foldl_checkpointWrites (hg : GeometryOk g.toGeometry g.journalBlocks)
    (ht : ∀ e ∈ t, Placed g.toGeometry e)
    (htxn : g.txn = t.map fun e => (e.1 % 2 ^ 32, e.2)) (D : Disk) :
    (checkpointWrites g).foldl (applyWrite g.toGeometry) D = writeBlocks g.toGeometry D t := by
  rw [checkpointWrites, htxn, map_map, foldl_map, writeBlocks]
  refine foldl_ext _ _ _ fun D e he => ?_
  rw [comp_apply, applyWrite_eq ((ht e he).length.trans hg.blockBytes_eq.symm)]
  simp only [(ht e he).mod_eq hg, Nat.mod_eq_of_lt (ht e he).narrow]
  rw [Nat.mul_assoc]
  rfl

/-- The bytes of a block of the filesystem are not those of a record. -/
lemma not_covers_of_apart {g : Geometry} (hg : GeometryOk g g.journalBlocks) (hb : Apart g b)
    {w : Write} {o x : ℕ} (ho : o < g.journalBlocks) (hsector : w.sector = g.journalSector o)
    (hlow : b * g.blockBytes ≤ x) (hhigh : x < (b + 1) * g.blockBytes) : ¬ w.Covers g x := by
  intro hcov
  rw [Write.Covers, hsector] at hcov
  exact hg.not_inBlock hb ho hlow hhigh hcov

/-- The writes that go to the blocks of the journal area. -/
def ToArea (g : Geometry) (ws : List Write) : Prop :=
  ∀ w ∈ ws, ∃ o, o < g.journalBlocks ∧ w.sector = g.journalSector o

lemma ToArea.inRange (h : ToArea G ws) (hg : GeometryOk G G.journalBlocks) :
    ∀ w ∈ ws, G.bdev.inRange w.sector G.sectorsPerBlock = true := by
  intro w hw
  obtain ⟨o, ho, hsector⟩ := h w hw
  rw [hsector]
  exact hg.inRange_journalSector ho

/-- Writes to the journal area leave the blocks of the filesystem alone. -/
lemma ToArea.blockAt (h : ToArea G ws) (hg : GeometryOk G G.journalBlocks) (hb : Apart G b)
    (D : Disk) : blockAt G (ws.foldl (applyWrite G) D) b = blockAt G D b := by
  refine blockAt_foldl_applyWrite fun w hw x hlow hhigh => ?_
  obtain ⟨o, ho, hsector⟩ := h w hw
  exact not_covers_of_apart hg hb ho hsector hlow hhigh

lemma toArea_jsbWrite {inLog : Bool} (h : 0 < g.journalBlocks) :
    ToArea g.toGeometry [jsbWrite g inLog] := by
  intro w hw
  rw [mem_singleton.1 hw]
  exact ⟨0, h, rfl⟩

/-- The records of a commit, from the superblock to the commit record. -/
def recordWrites (g : Handle) (stack : List UInt8) : List Write :=
  jsbWrite (committing g) false :: (logWrites (committing g) g.sequence ++
    [commitWrite (committing g) g.sequence stack])

lemma commitWrites_eq (g : Handle) (stack : List UInt8) :
    commitWrites (committing g) g.sequence stack =
      recordWrites g stack ++ checkpointWrites (committing g) := by
  simp [commitWrites, recordWrites]

lemma toArea_recordWrites (h : g.head + g.txn.length + 2 ≤ g.journalBlocks)
    (stack : List UInt8) : ToArea g.toGeometry (recordWrites g stack) := by
  refine forall_mem_cons.2 ⟨⟨0, by omega, rfl⟩, fun w hw => ?_⟩
  obtain ⟨o, -, hhi, hsector, -⟩ := mem_logWrites hw
  exact ⟨o, by omega, hsector⟩

/-- The blocks of the transaction are on the device. -/
lemma inRange_checkpointWrites (hg : GeometryOk g.toGeometry g.journalBlocks)
    (ht : ∀ e ∈ t, Placed g.toGeometry e)
    (htxn : g.txn = t.map fun e => (e.1 % 2 ^ 32, e.2)) :
    ∀ w ∈ checkpointWrites g, g.bdev.inRange w.sector g.sectorsPerBlock = true := by
  intro w hw
  rw [checkpointWrites, htxn, map_map] at hw
  obtain ⟨e, he, rfl⟩ := mem_map.1 hw
  simp only [comp_apply]
  rw [(ht e he).mod_eq hg, Nat.mod_eq_of_lt (ht e he).narrow]
  exact hg.inRange_block (ht e he).outside.exists_on

/-! ## The oldest records -/

section

variable {tail : ℕ}

/-- At a record of size 0 the loop stands still. -/
lemma evict_of_stuck (h : Stuck g.toGeometry D tail) (htail : tail < 2 ^ 64)
    (hfull : (tail + (g.journalBlocks - 1)) % 2 ^ 64 ≤ g.head) (fuel : ℕ) :
    evict g D fuel tail = none := by
  obtain ⟨block, hread, hdesc, hsize⟩ := h
  induction fuel with
  | zero => rfl
  | succ fuel ih =>
    rw [evict, if_pos hfull, hread]
    dsimp only
    rw [if_pos hdesc, hsize, show (1 + (2 ^ 32 - 2) + 1) % 2 ^ 32 = 0 from rfl, Nat.add_zero,
      Nat.mod_eq_of_lt htail, ih]

/-- At any other record it ends or raises the tail. -/
lemma evict_succ (h : ¬ Stuck g.toGeometry D tail) (fuel : ℕ) :
    evict g D (fuel + 1) tail = some tail ∨ ∃ n, 0 < n ∧ n < 2 ^ 32 ∧
      evict g D (fuel + 1) tail = evict g D fuel ((tail + n) % 2 ^ 64) := by
  rw [evict]
  split_ifs
  · right
    cases hread : g.readBlock D tail with
    | none => exact ⟨1, by decide, by decide, rfl⟩
    | some block =>
      dsimp only
      split_ifs with hdesc
      · have hlt : field block 12 4 < 2 ^ 32 := field_lt block 12 4
        have hne : field block 12 4 ≠ 2 ^ 32 - 2 := fun hsize => h ⟨block, hread, hdesc, hsize⟩
        exact ⟨_, by omega, Nat.mod_lt _ (by decide), rfl⟩
      · exact ⟨1, by decide, by decide, rfl⟩
  · exact .inl rfl

variable (hhead : g.head ≤ g.journalBlocks)

include hhead

lemma evict_of_two_le (htail : 2 ≤ tail) (hlt : tail + g.journalBlocks < 2 ^ 64) (fuel : ℕ) :
    evict g D (fuel + 1) tail = some tail := by
  rw [evict, Nat.mod_eq_of_lt (by omega), if_neg (by omega)]

/-- Within the area the loop ends, after two turns at most. -/
lemma exists_evict_eq (hlt : tail + g.journalBlocks + 2 ^ 32 < 2 ^ 64)
    (hpass : tail + g.journalBlocks ≤ g.head + 1 →
      ∀ o, tail ≤ o → o ≤ 1 → ¬ Stuck g.toGeometry D o) (fuel : ℕ) :
    ∃ tail', evict g D (fuel + 3) tail = some tail' := by
  by_cases htail : tail + g.journalBlocks ≤ g.head + 1
  · have hpass := hpass htail
    rcases evict_succ (hpass tail le_rfl (by omega)) (fuel + 2) with heq | ⟨n, hpos, hn, heq⟩
    · exact ⟨tail, heq⟩
    rw [Nat.mod_eq_of_lt (by omega)] at heq
    by_cases htwo : 2 ≤ tail + n
    · exact ⟨tail + n, heq.trans (evict_of_two_le hhead htwo (by omega) (fuel + 1))⟩
    obtain ⟨rfl, rfl⟩ : tail = 0 ∧ n = 1 := by omega
    rcases evict_succ (hpass 1 (by omega) le_rfl) (fuel + 1) with heq' | ⟨k, hpos', hk, heq'⟩
    · exact ⟨1, heq.trans heq'⟩
    rw [Nat.mod_eq_of_lt (by omega)] at heq'
    exact ⟨1 + k, heq.trans (heq'.trans (evict_of_two_le hhead (by omega) (by omega) fuel))⟩
  · refine ⟨tail, ?_⟩
    rw [evict, Nat.mod_eq_of_lt (by omega), if_neg (by omega)]

end

/-- With the records in the area, `advance_head` returns. -/
lemma exists_advanceHead_eq {n : ℕ} (h : Fitting g n D) :
    ∃ g', advanceHead g D (1 + n + 1) = some g' ∧ g'.toGeometry = g.toGeometry ∧
      g'.sequence = g.sequence ∧ g'.initialized = g.initialized := by
  have hroom := h.room
  obtain ⟨tail', hevict⟩ := exists_evict_eq (g := { g with head := g.head + (1 + n + 1) })
    (D := D) (by dsimp only; omega) h.tail (fun hfull => h.passes (by dsimp only at hfull; omega))
    (g.head + (1 + n + 1))
  unfold advanceHead
  dsimp only
  rw [hevict]
  dsimp only
  split <;> exact ⟨_, rfl, rfl, rfl, rfl⟩

/-- What a commit of blocks leaves. -/
structure Commits (g : Handle) (D : Disk) (t : Txn) (r : ℤ × Handle × Disk) : Prop where
  result : r.1 = 0
  geometry : r.2.1.toGeometry = g.toGeometry
  initialized : r.2.1.initialized = true
  closed : r.2.1.inTransaction = false
  sequence : r.2.1.sequence = g.sequence + if t = [] then 0 else 1
  blocks : ∀ b, Apart g.toGeometry b →
    blockAt g.toGeometry r.2.2 b = newest t b (blockAt g.toGeometry D b)

/-- **A commit**: it returns 0, and the blocks of the filesystem are those of the transaction, one
written after the other. -/
lemma commits_commitCall (hg : GeometryOk g.toGeometry g.journalBlocks)
    (hinit : g.initialized = true) (hopen : g.inTransaction = true)
    (htxn : g.txn = t.map fun e => (e.1 % 2 ^ 32, e.2)) (ht : ∀ e ∈ t, Placed g.toGeometry e)
    {D : Disk} (hroom : t ≠ [] → Fitting g t.length (logged g D stack)) :
    ∃ r, commitCall g D stack = some r ∧ Commits g D t r := by
  unfold commitCall
  rw [if_neg (by simp [hinit, hopen])]
  by_cases hne : t = []
  · rw [if_pos (by rw [htxn, hne]; rfl)]
    exact ⟨_, rfl, rfl, rfl, hinit, rfl, by rw [if_pos hne]; rfl,
      fun b _ => by rw [hne, newest_nil]⟩
  rw [if_neg (by rw [htxn]; simpa using hne)]
  have hlen : g.txn.length = t.length := by rw [htxn, length_map]
  have hroom' : Fitting g g.txn.length (logged g D stack) := hlen ▸ hroom hne
  have harea := toArea_recordWrites hroom'.room stack
  have hrange : ∀ w ∈ commitWrites (committing g) g.sequence stack,
      g.bdev.inRange w.sector g.sectorsPerBlock = true := by
    rw [commitWrites_eq]
    intro w hw
    rcases mem_append.1 hw with hw | hw
    · exact harea.inRange hg w hw
    · exact inRange_checkpointWrites (g := committing g) hg ht htxn w hw
  obtain ⟨D1, hD1⟩ : ∃ D1, D1 = logged g D stack := ⟨_, rfl⟩
  have hissue : (issue (committing g).toGeometry D
      (commitWrites (committing g) g.sequence stack)).2 = some D1 := by
    rw [hD1]
    exact issue_snd hrange
  dsimp only
  rw [hissue]
  dsimp only
  rw [← hD1] at hroom'
  obtain ⟨g', hadvance, hgeo', hseq, hinit'⟩ := exists_advanceHead_eq (g := committing g)
    ⟨hroom'.room, hroom'.tail, hroom'.passes⟩
  have hgeo' : g'.toGeometry = g.toGeometry := hgeo'
  have hadvance : advanceHead (committing g) D1 (1 + (committing g).txn.length + 1) = some g' :=
    hadvance
  rw [hadvance]
  dsimp only
  -- the two writes of the superblock after the checkpoint
  have hsb : ToArea g'.toGeometry [jsbWrite g' true, jsbWrite { g' with dirty := false } true] := by
    have hpos : 0 < g'.journalBlocks := by
      rw [hgeo']
      exact Nat.lt_of_lt_of_le (Nat.succ_pos _) hroom'.room
    refine forall_mem_cons.2 ⟨⟨0, hpos, rfl⟩, ?_⟩
    exact toArea_jsbWrite (g := { g' with dirty := false }) hpos
  have hg' : GeometryOk g'.toGeometry g'.journalBlocks := by
    rwa [hgeo']
  refine ⟨_, rfl, rfl, hgeo', hinit'.trans hinit, rfl, by rwa [if_neg hne],
    fun b hb => ?_⟩
  have hlength : ∀ e ∈ t, e.2.length = g.blockBytes := fun e he =>
    (ht e he).length.trans hg.blockBytes_eq.symm
  calc blockAt g.toGeometry (lastImage D1 (issue g'.toGeometry D1 _).1) b
      = blockAt g.toGeometry D1 b := by
        rw [lastImage_issue (hsb.inRange hg'), ← hgeo']
        refine hsb.blockAt hg' ?_ D1
        rwa [hgeo']
    _ = blockAt g.toGeometry (writeBlocks g.toGeometry
          ((recordWrites g stack).foldl (applyWrite g.toGeometry) D) t) b := by
        rw [hD1, logged, commitWrites_eq, foldl_append]
        exact congrArg (blockAt g.toGeometry · b)
          (foldl_checkpointWrites (g := committing g) hg ht htxn _)
    _ = newest t b (blockAt g.toGeometry D b) := by
        rw [blockAt_writeBlocks hlength, harea.blockAt hg hb]

/-! ## What one call does -/

/-- `journal_begin` opens a transaction, or changes nothing. -/
lemma journalBegin_cases (g : Handle) (maxBlocks : ℕ) (ok : Bool) :
    (∃ n, g.inTransaction = false ∧ journalBegin g maxBlocks ok =
      (0, { g with inTransaction := true, txn := [], txnCapacity := n })) ∨
    journalBegin g maxBlocks ok = (-1, g) := by
  unfold journalBegin
  cases g.initialized with
  | false => exact .inr rfl
  | true =>
    cases hopen : g.inTransaction with
    | true => exact .inr rfl
    | false =>
      cases ok with
      | false => exact .inr rfl
      | true => exact .inl ⟨_, rfl, rfl⟩

/-- `journal_write` adds a block to the open transaction, or changes nothing. -/
lemma journalWrite_cases (g : Handle) (fsBlock : ℕ) (data : List UInt8) (ok : Bool) :
    (g.inTransaction = true ∧ journalWrite g fsBlock data ok =
      (0, { g with txn := g.txn ++ [(fsBlock % 2 ^ 32, data)] })) ∨
    journalWrite g fsBlock data ok = (-1, g) := by
  unfold journalWrite
  split
  · exact .inr rfl
  · rename_i hopen
    split
    · exact .inr rfl
    · split
      · have hopen' : g.initialized = true ∧ g.inTransaction = true := by simpa using hopen
        exact .inl ⟨hopen'.2, rfl⟩
      · exact .inr rfl

/-- What a call does to the device and to the committed writes. -/
structure Performed (G : Geometry) (orig : Disk) (s : Sys) (op : Op) (s' : Sys) : Prop where
  blocks : ∀ b, Apart G b → blockAt G s'.disk b = newest s'.done b (blockAt G orig b)
  commit : ∀ stack, op = .commit stack → s.handle.inTransaction = true →
    s'.result = 0 ∧ s'.handle.inTransaction = false ∧ s'.done = s.done ++ s.pending ∧
      s'.handle.sequence = s.handle.sequence + if s.pending = [] then 0 else 1
  other : (∀ stack, op ≠ .commit stack) → s'.disk = s.disk ∧ s'.done = s.done

namespace Synced

variable (h : Synced G orig s)

include h

lemma begin (maxBlocks : ℕ) (ok : Bool) : Synced G orig (exec step s (.begin maxBlocks ok)) := by
  rcases journalBegin_cases s.handle maxBlocks ok with ⟨n, hclosed, heq⟩ | heq
  · have hnil := h.idle hclosed
    simp only [exec, step, heq]
    exact ⟨h.geometry, h.initialized, nofun, fun _ => by rw [hnil]; rfl, h.placed, h.blocks⟩
  · simp only [exec, step, heq]
    exact ⟨h.geometry, h.initialized, h.idle, h.txn, h.placed, h.blocks⟩

lemma write {fsBlock : ℕ} {data : List UInt8} (hplaced : Placed G (fsBlock, data)) (ok : Bool) :
    Synced G orig (exec step s (.write fsBlock data ok)) := by
  rcases journalWrite_cases s.handle fsBlock data ok with ⟨hopen, heq⟩ | heq
  · simp only [exec, step, heq, if_true]
    refine ⟨h.geometry, h.initialized, fun hc => ?_, fun _ => ?_, fun e he => ?_, h.blocks⟩
    · exact absurd hopen (ne_true_of_eq_false hc)
    · show s.handle.txn ++ [(fsBlock % 2 ^ 32, data)] =
        (s.pending ++ [(fsBlock, data)]).map fun e => (e.1 % 2 ^ 32, e.2)
      rw [h.txn hopen, map_append]
      rfl
    · rcases mem_append.1 he with he | he
      · exact h.placed e he
      · rwa [mem_singleton.1 he]
  · simp only [exec, step, heq]
    exact ⟨h.geometry, h.initialized, h.idle, h.txn, h.placed, h.blocks⟩

lemma rollback : Synced G orig (exec step s .rollback) := by
  simp only [exec, step, journalRollback]
  split
  · rename_i hclosed
    have hclosed' : s.handle.inTransaction = false := by simpa [h.initialized] using hclosed
    exact ⟨h.geometry, h.initialized, fun _ => rfl,
      fun hopen => absurd hopen (ne_true_of_eq_false hclosed'), nofun, h.blocks⟩
  · exact ⟨h.geometry, h.initialized, fun _ => rfl, nofun, nofun, h.blocks⟩

section

variable (hg : GeometryOk G G.journalBlocks)

include hg

lemma commits (hopen : s.handle.inTransaction = true) (hop : Unwrapped s (.commit stack)) :
    ∃ r, commitCall s.handle s.disk stack = some r ∧ Commits s.handle s.disk s.pending r := by
  have hgeo := h.geometry
  subst hgeo
  exact commits_commitCall hg h.initialized hopen (h.txn hopen) h.placed hop

lemma commit (hop : Unwrapped s (.commit stack)) :
    Synced G orig (exec step s (.commit stack)) := by
  cases hopen : s.handle.inTransaction with
  | false =>
    have heq : commitCall s.handle s.disk stack = some (-1, s.handle, s.disk) := by
      simp [commitCall, hopen]
    simp only [exec, step, heq]
    exact ⟨h.geometry, h.initialized, fun _ => rfl,
      fun hopen' => absurd hopen' (ne_true_of_eq_false hopen), nofun, h.blocks⟩
  | true =>
    obtain ⟨r, heq, hc⟩ := h.commits hg hopen hop
    simp only [exec, Journal.step, heq]
    refine ⟨hc.geometry.trans h.geometry, hc.initialized, fun _ => rfl,
      fun hopen' => absurd hopen' (ne_true_of_eq_false hc.closed), nofun, fun b hb => ?_⟩
    have hblock := hc.blocks b (by rwa [h.geometry])
    rw [h.geometry, h.blocks b hb, ← newest_append] at hblock
    show blockAt G r.2.2 b = newest (if r.1 = 0 then _ else _) b _
    rwa [if_pos hc.result]

/-- **The step lemma.** -/
lemma step (hop : Unwrapped s op) : Synced G orig (exec step s op) := by
  cases op with
  | begin maxBlocks ok => exact h.begin maxBlocks ok
  | write _ _ ok =>
    refine h.write ?_ ok
    rwa [← h.geometry]
  | commit _ => exact h.commit hg hop
  | rollback => exact h.rollback

lemma performed (hop : Unwrapped s op) : Performed G orig s op (exec Journal.step s op) := by
  refine ⟨(h.step hg hop).blocks, ?_, fun hne => ?_⟩
  · rintro stack rfl hopen
    obtain ⟨r, heq, hc⟩ := h.commits hg hopen hop
    simp only [exec, Journal.step, heq]
    exact ⟨hc.result, hc.closed, if_pos hc.result, hc.sequence⟩
  · cases op with
    | begin _ ok => exact ⟨rfl, rfl⟩
    | write _ _ ok => exact ⟨rfl, rfl⟩
    | commit stack => exact absurd rfl (hne stack)
    | rollback => exact ⟨rfl, rfl⟩

end

end Synced

lemma synced_start {g : Handle} (hinit : g.initialized = true) (hclosed : g.inTransaction = false)
    (D : Disk) : Synced g.toGeometry D (start g D) where
  geometry := rfl
  initialized := hinit
  idle _ := rfl
  txn hopen := absurd hopen (ne_true_of_eq_false hclosed)
  placed := nofun
  blocks _ _ := rfl

/-- **Committed transactions.** In every history whose transactions fit between the head and the
end of the journal area, and in which `advance_head` gets past the oldest records, every block of
the filesystem always holds the data of the last write to it in a committed transaction, or what it
held at first. Each commit of a transaction returns 0 and closes it; it increases the sequence
number by one if the transaction has a block, and leaves the number as it is if it has none. No
other call writes to the device. -/
theorem committed_blocks {g : Handle} {orig : Disk} {ops : List Op}
    (hg : GeometryOk g.toGeometry g.journalBlocks) (hinit : g.initialized = true)
    (hclosed : g.inTransaction = false) (hops : Along step Unwrapped (start g orig) ops)
    {before after : List Op} {op : Op} (hsplit : ops = before ++ op :: after) :
    Performed g.toGeometry orig (run step (start g orig) before) op
      (run step (start g orig) (before ++ [op])) := by
  have hkeep : ∀ s op, Synced g.toGeometry orig s → Unwrapped s op →
      Synced g.toGeometry orig (exec step s op) := fun s op hs hop => hs.step hg hop
  subst hsplit
  obtain ⟨hs, hop⟩ := hops.at_split hkeep (synced_start hinit hclosed orig)
  rw [run_append]
  exact hs.performed hg hop

/-- The first block of a device is written and committed. -/
theorem committed_blocks_sample :
    Performed sampleHandle.toGeometry (fun _ => 0)
      (run step (start sampleHandle fun _ => 0)
        [.begin 1 true, .write 0 (List.replicate 512 7) true]) (.commit [])
      (run step (start sampleHandle fun _ => 0)
        [.begin 1 true, .write 0 (List.replicate 512 7) true, .commit []]) := by
  have hfits := fits_sample 7
  have hplaced : Placed sampleHandle.toGeometry (0, List.replicate 512 7) :=
    ⟨hfits.outside _ mem_cons_self, (logOk_sample 7 fun _ => 0).narrow _ mem_cons_self,
      length_replicate⟩
  have hroom : sampleHandle.head + 1 + 2 ≤ sampleHandle.journalBlocks := by decide
  have hgeo : GeometryOk sampleHandle.toGeometry sampleHandle.journalBlocks := hfits.geometry
  have hops : Along step Unwrapped (start sampleHandle fun _ => 0)
      [.begin 1 true, .write 0 (List.replicate 512 7) true, .commit []] :=
    ⟨trivial, hplaced, fun _ => ⟨hroom, by decide, fun hfull => absurd hfull (by decide)⟩, trivial⟩
  exact committed_blocks hgeo rfl rfl hops
    (show [Op.begin 1 true, .write 0 (List.replicate 512 7) true, .commit []] =
      [Op.begin 1 true, .write 0 (List.replicate 512 7) true] ++ .commit [] :: [] from rfl)

/-- The commit of a transaction without a block returns 0 and leaves the sequence number alone. -/
theorem sequence_empty_commit :
    Along step Unwrapped (start sampleHandle fun _ => 0) [.begin 1 true, .commit []] ∧
      (run step (start sampleHandle fun _ => 0) [.begin 1 true]).handle.inTransaction = true ∧
      (run step (start sampleHandle fun _ => 0) [.begin 1 true, .commit []]).result = 0 ∧
      (run step (start sampleHandle fun _ => 0) [.begin 1 true, .commit []]).handle.sequence =
        (run step (start sampleHandle fun _ => 0) [.begin 1 true]).handle.sequence :=
  ⟨⟨trivial, fun hne => absurd rfl hne, trivial⟩, rfl, rfl, rfl⟩

end Aurora.Journal
