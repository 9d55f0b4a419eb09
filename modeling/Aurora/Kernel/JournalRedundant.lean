import Mathlib.Data.List.Nodup
import Aurora.Kernel.JournalCrash

/-!
# Which transactions survive every crash

A transaction whose blocks already get their new contents from the log survives a
crash at any point; before the head has moved because recovery replays the old log,
and afterwards because recovery also replays the transaction itself. Together with
`redundant_of_crashAtomic` this characterises crash atomicity on well-formed logs.

## Main definitions

* `LogOk`: a well-formed log with room for the transaction.
* `Good`, `Allowed`: the writes of a commit, and the bytes they leave.
* `crashAtomic_redundant`: the characterisation.
-/

namespace Aurora.Journal

variable {Y : Disk} {o seq x : ℕ} {w : Write} {ws : List Write}

open Lib List Option

variable {g : Handle} {t : Txn} {before : Disk} {beyond stack : List UInt8}

/-! ## The bytes a commit leaves -/

/-- The log is a sequence of committed transactions with room for one more before the end
of the journal area; the transaction names each block once, with a block number whose
sector fits 32 bits; and the commit record is written as a whole block. -/
structure LogOk (g : Handle) (t : Txn) (before : Disk) (beyond stack : List UInt8) : Prop where
  room : g.head + 1 + t.length + 1 < g.journalBlocks
  distinct : (t.map Prod.fst).Nodup
  narrow : ∀ e ∈ t, e.1 * g.sectorsPerBlock < 2 ^ 32
  stack_length : 32 + stack.length = g.blockSize
  log : LogSegment g.toGeometry beyond (areaOf g t) before g.tail g.head

variable {e : ℕ × List UInt8}

lemma newData_eq (hd : (t.map Prod.fst).Nodup) (he : e ∈ t) : newData t e.1 = e.2 := by
  cases hfind : t.reverse.find? (fun e' => e'.1 = e.1) with
  | none =>
    have := find?_eq_none.1 hfind e (mem_reverse.2 he)
    simp at this
  | some e' =>
    have hmem : e' ∈ t := mem_reverse.1 (mem_of_find?_eq_some hfind)
    have heq : e'.1 = e.1 := by simpa using find?_some hfind
    obtain rfl : e' = e := inj_on_of_nodup_map hd hmem he heq
    simp [newData, hfind]

/-- A byte of one of the transaction's blocks, with its new value. -/
def NewByte (G : Geometry) (t : Txn) (x : ℕ) (v : UInt8) : Prop :=
  ∃ e ∈ t, e.1 * G.blockBytes ≤ x ∧ x < (e.1 + 1) * G.blockBytes ∧
    (newData t e.1)[x - e.1 * G.blockBytes]? = some v

/-- What an image of the commit may have in the place of the old contents. -/
def Allowed (g : Handle) (t : Txn) (x : ℕ) (v : UInt8) : Prop :=
  CommitArea g t x ∨ NewByte g.toGeometry t x v

lemma block_unique {n a b : ℕ} (ha : a * n ≤ x) (ha' : x < (a + 1) * n) (hb : b * n ≤ x)
    (hb' : x < (b + 1) * n) : a = b := by
  by_contra hne
  have := block_disjoint hne ha ha'
  omega

lemma Fits.length_data (hf : Fits g t) (he : e ∈ t) :
    e.2.length = g.blockBytes := by rw [hf.data_length e he, hf.geometry.blockBytes_eq]

/-- Blocks that are new in one image are new in an image that differs from it by such bytes
only. -/
lemma AllNew.of_sim (hf : Fits g t) (hd : (t.map Prod.fst).Nodup) {J : ℕ → Prop} {X : Disk}
    (h : AllNew g.toGeometry t X) (hsim : Sim J (Allowed g t) X Y) : AllNew g.toGeometry t Y := by
  intro e he
  have hlen : (newData t e.1).length = g.blockBytes := by
    rw [newData_eq hd he, hf.length_data he]
  have hX := (slice_eq_iff hlen).1 (h e he)
  refine (slice_eq_iff hlen).2 fun i hi => ?_
  have hlt : e.1 * g.blockBytes + i < (e.1 + 1) * g.blockBytes := by
    rw [Nat.succ_mul]
    omega
  rcases hsim.differ (e.1 * g.blockBytes + i) with heq | ⟨o, -, hoff, hin⟩ | ⟨_, -, hlo, hhi, hv⟩
  · rw [heq, hX i hi]
  · exact absurd hin (hf.geometry.not_inBlock (hf.outside e he).apart hoff (Nat.le_add_right _ _)
      hlt)
  · rw [← block_unique (Nat.le_add_right _ _) hlt hlo hhi, Nat.add_sub_cancel_left,
      getElem?_eq_getElem hi] at hv
    exact (some.inj hv).symm

/-- The writes of a commit after its first: records from the head on, and the transaction's
blocks in their places. -/
def Good (g : Handle) (t : Txn) (w : Write) : Prop :=
  (∃ o, g.head ≤ o ∧ o < areaOf g t ∧ w.sector = g.journalSector o) ∨
    ∃ e ∈ t, w.sector = e.1 * g.sectorsPerBlock ∧ w.data = e.2

lemma Good.inRange (h : Good g t w) (hf : Fits g t) :
    g.bdev.inRange w.sector g.sectorsPerBlock = true := by
  rcases h with ⟨o, -, hoff, heq⟩ | ⟨e, he, heq, -⟩
  · rw [heq]
    exact hf.geometry.inRange_journalSector hoff
  · rw [heq]
    exact hf.geometry.inRange_block (hf.outside e he).exists_on

lemma covers_checkpoint {b : ℕ} (hsector : w.sector = b * g.sectorsPerBlock)
    (hx : w.Covers g.toGeometry x) : b * g.blockBytes ≤ x ∧ x < (b + 1) * g.blockBytes := by
  rw [Write.Covers, hsector, Nat.mul_assoc, ← Geometry.blockBytes] at hx
  rwa [Nat.succ_mul]

lemma Good.not_inBlock_zero (h : Good g t w) (hf : Fits g t) (x : ℕ)
    (hx : w.Covers g.toGeometry x) : ¬ InBlock g.toGeometry 0 x := by
  have harea := lt_areaOf g t
  rcases h with ⟨o, hlo, hoff, heq⟩ | ⟨e, he, heq, -⟩
  · exact Journal.not_inBlock_zero hf hlo hoff heq x hx
  · obtain ⟨hlo, hhi⟩ := covers_checkpoint heq hx
    exact hf.geometry.not_inBlock (hf.outside e he).apart (by omega) hlo hhi

lemma Good.harmless (h : Good g t w) (hf : Fits g t) (hd : (t.map Prod.fst).Nodup) :
    w.Harmless g.toGeometry (LogBytes g.toGeometry g.tail g.head) (Allowed g t) := by
  have harea := lt_areaOf g t
  rcases h with ⟨o, hlo, hoff, heq⟩ | ⟨e, he, heq, hdata⟩
  · exact harmless_of_sector hf (.inr hlo) hoff heq fun x v hx => .inl hx
  · intro x hx
    obtain ⟨hlo, hhi⟩ := covers_checkpoint heq hx
    refine ⟨?_, fun D => .inr ⟨e, he, hlo, hhi, ?_⟩⟩
    · rintro ⟨o, -, hoff, hin⟩
      exact hf.geometry.not_inBlock (hf.outside e he).apart (by omega) hlo hhi hin
    · have hlen := hf.length_data he
      have hidx : x - e.1 * g.blockBytes < e.2.length := by
        rw [Nat.succ_mul] at hhi
        omega
      rw [newData_eq hd he, applyWrite_eq (hdata ▸ hlen), heq, hdata, Nat.mul_assoc,
        ← Geometry.blockBytes, blit, if_pos hlo, getElem?_eq_getElem hidx]
      rfl

section Opened

variable (ho : Opened g t) (hf : Fits g t) (hk : LogOk g t before beyond stack)

include ho hf hk

/-- The handle holds the blocks of the transaction. -/
lemma mem_of_mem_txn (he : e ∈ g.txn) : e ∈ t := by
  rw [ho.txn_eq] at he
  obtain ⟨e', hmem, rfl⟩ := mem_map.1 he
  rwa [Nat.mod_eq_of_lt (hf.geometry.lt_of_sector_lt (hk.narrow e' hmem))]

/-- The checkpoint writes the transaction's blocks in their places. -/
lemma mem_checkpointWrites (hw : w ∈ checkpointWrites (committing g)) :
    ∃ e ∈ t, w.sector = e.1 * g.sectorsPerBlock ∧ w.data = e.2 := by
  obtain ⟨e, he, rfl⟩ := mem_map.1 hw
  have hmem := mem_of_mem_txn ho hf hk he
  exact ⟨e, hmem, Nat.mod_eq_of_lt (hk.narrow e hmem), rfl⟩

/-- The writes of the commit before the head moves are good. -/
lemma good_commitWrites
    (hw : w ∈ logWrites (committing g) g.sequence ++
      commitWrite (committing g) g.sequence stack :: checkpointWrites (committing g)) :
    Good g t w := by
  rw [append_cons] at hw
  rcases mem_append.1 hw with hw | hw
  · exact .inl (logWrites_sector ho hw)
  · exact .inr (mem_checkpointWrites ho hf hk hw)

end Opened

/-! ## Crashes before the head moves -/

/-- The image after the first write and some good ones. -/
lemma sim_good (hf : Fits g t) (hd : (t.map Prod.fst).Nodup)
    (hws : ∀ w ∈ ws, Good g t w ∨ w.sector = g.journalSector 0) :
    Sim (LogBytes g.toGeometry g.tail g.head) (Allowed g t) before
      (ws.foldl (applyWrite g.toGeometry) before) := by
  have harea := lt_areaOf g t
  refine Sim.foldl_applyWrite ⟨fun _ _ => rfl, fun _ => .inl rfl⟩ fun w hw => ?_
  rcases hws w hw with hgood | heq
  · exact hgood.harmless hf hd
  · exact harmless_of_sector hf (.inl rfl) (by omega) heq fun x v hx => .inl hx

/-- Before the head moves, recovery replays the old log, which makes the blocks new. -/
lemma recover_before_advance (hf : Fits g t)
    (hd : (t.map Prod.fst).Nodup) (hr : Redundant g t before beyond)
    (hws : ∀ w ∈ ws, Good g t w) :
    ∃ disk, journalRecover g beyond
      ((jsbWrite (committing g) false :: ws).foldl (applyWrite g.toGeometry) before) = some disk ∧
      AllNew g.toGeometry t disk := by
  have harea := lt_areaOf g t
  have hlt := hf.area_lt
  obtain ⟨X, hscan, hnew⟩ := hr
  have hsim : Sim (LogBytes g.toGeometry g.tail g.head) (Allowed g t) before
      ((jsbWrite (committing g) false :: ws).foldl (applyWrite g.toGeometry) before) := by
    refine sim_good hf hd (forall_mem_cons.2 ⟨.inr rfl, fun w hw => .inl (hws w hw)⟩)
  obtain ⟨Y, hscanY, hsimY⟩ := scan_sim hsim (fun x hx => hx) (by omega) le_rfl hscan
  have hjsb : g.readBlock ((jsbWrite (committing g) false :: ws).foldl
      (applyWrite g.toGeometry) before) 0 = some (jsbBlock (committing g)) :=
    readBlock_jsb (h := committing g) hf (fun w hw => (hws w hw).not_inBlock_zero hf) rfl
  obtain ⟨_, heq⟩ := journalRecover_eq beyond hjsb (show g.head < 2 ^ 64 by omega)
    (show g.tail < 2 ^ 64 from hf.tail_lt)
  refine ⟨_, by rw [heq]; exact congrArg (Option.map _) hscanY, fun e he => ?_⟩
  rw [blockAt_recovered hf he]
  exact hnew.of_sim hf hd hsimY e he

/-! ## The records on the device -/

lemma length_jdbBytes (e : ℕ × List UInt8) : (jdbBytes e).length = 20 := by
  simp [jdbBytes]

lemma length_entries (l : Txn) : (l.flatMap jdbBytes).length = 20 * l.length := by
  induction l with
  | nil => rfl
  | cons e l ih =>
    rw [flatMap_cons, length_append, length_jdbBytes, ih, length_cons]
    omega

lemma length_descBlock (h : 36 + 20 * g.txn.length ≤ g.blockSize) :
    (descBlock g seq).length = g.blockSize := by
  simp only [descBlock, length_append, length_toLE, length_replicate, length_entries]
  omega

lemma field_descBlock_magic (g : Handle) (seq : ℕ) : field (descBlock g seq) 0 4 = magicDesc := by
  exact field_toLE_append (by decide)

lemma field_descBlock_num (h : g.txn.length < 2 ^ 32) :
    field (descBlock g seq) 12 4 = g.txn.length := by
  have hsplit : ∀ a b c d : List UInt8, (a ++ (b ++ c)) ++ d = (a ++ b) ++ (c ++ d) := by
    simp [append_assoc]
  simp only [descBlock]
  rw [hsplit]
  exact field_append (by simp) (by omega)

/-- The block number of an entry of the descriptor. -/
lemma field_descBlock_entry {i : ℕ} (hi : i < g.txn.length) (hb : g.txn[i].1 < 2 ^ 64) :
    field (descBlock g seq ++ beyond) (36 + 20 * i) 8 = g.txn[i].1 := by
  have hentries : g.txn.flatMap jdbBytes = (g.txn.take i).flatMap jdbBytes ++
      (jdbBytes g.txn[i] ++ (g.txn.drop (i + 1)).flatMap jdbBytes) := by
    conv_lhs => rw [← take_append_drop i g.txn, drop_eq_getElem_cons hi]
    rw [flatMap_append, flatMap_cons]
  set checksum := calcChecksum (toLE 4 magicDesc ++ (toLE 8 seq ++ toLE 4 g.txn.length) ++
    toLE 4 0 ++ List.replicate 12 0) with hsum
  set rest := (g.txn.drop (i + 1)).flatMap jdbBytes
  have hsplit : descBlock g seq ++ beyond =
      (toLE 4 magicDesc ++ (toLE 8 seq ++ (toLE 4 g.txn.length ++ (toLE 4 checksum.toNat ++
        (List.replicate 16 0 ++ (g.txn.take i).flatMap jdbBytes))))) ++
      (toLE 8 g.txn[i].1 ++ (toLE 4 (calcChecksum g.txn[i].2).toNat ++ (toLE 8 0 ++ (rest ++
        (List.replicate (g.blockSize - 36 - (g.txn.flatMap jdbBytes).length) 0 ++ beyond))))) := by
    simp only [descBlock, ← hsum]
    rw [hentries]
    simp only [jdbBytes, append_assoc]
  rw [hsplit]
  refine field_append ?_ (by omega)
  simp only [length_append, length_toLE, length_replicate, length_entries, length_take]
  omega

lemma field_commitBlock (seq : ℕ) (stack : List UInt8) :
    field (commitBlock seq stack) 0 4 = magicCommit := by
  exact field_toLE_append (by decide)

lemma length_commitBlock (seq : ℕ) (stack : List UInt8) :
    (commitBlock seq stack).length = 32 + stack.length := by
  simp only [commitBlock, length_append, length_toLE, length_replicate]
  omega

lemma length_recordAt (ho : Opened g t) (hf : Fits g t) (hk : LogOk g t before beyond stack)
    (hlo : g.head ≤ o) (hhi : o ≤ g.head + 1 + g.txn.length) :
    (recordAt g stack o).length = g.blockBytes := by
  have hblock := hf.geometry.block_ge
  have hcap := ho.capacity
  rw [hf.geometry.blockBytes_eq]
  unfold recordAt
  split_ifs with hhead hcommit
  · exact length_descBlock (g := committing g) (show 36 + 20 * g.txn.length ≤ g.blockSize by omega)
  · rw [length_commitBlock, hk.stack_length]
  · have hidx : o - (g.head + 1) < g.txn.length := by omega
    rw [getElem?_eq_getElem hidx, map_some, getD_some]
    exact hf.data_length _ (mem_of_mem_txn ho hf hk (getElem_mem hidx))

/-- Every record is written. -/
lemma exists_logWrite (stack : List UInt8) (hlo : g.head ≤ o)
    (hhi : o ≤ g.head + 1 + g.txn.length) :
    ∃ w ∈ logRecords g stack, w.sector = g.journalSector o := by
  rcases Nat.eq_or_lt_of_le hlo with rfl | hlo
  · exact ⟨_, mem_append_left _ mem_cons_self, rfl⟩
  rcases Nat.eq_or_lt_of_le hhi with rfl | hhi
  · exact ⟨_, mem_append_right _ mem_cons_self, rfl⟩
  · have hidx : o - (g.head + 1) < g.txn.length := by omega
    refine ⟨_, mem_append_left _ (mem_cons_of_mem _ (mem_mapIdx.2
      ⟨o - (g.head + 1), hidx, rfl⟩)), ?_⟩
    change g.journalSector (g.head + 1 + (o - (g.head + 1))) = _
    rw [show g.head + 1 + (o - (g.head + 1)) = o by omega]

/-- A byte that every write covering it sets to the same value. -/
lemma foldl_applyWrite_eq {G : Geometry} {D : Disk} {v : UInt8}
    (hall : ∀ w ∈ ws, w.Covers G x → ∀ D, applyWrite G D w x = v)
    (hsome : D x = v ∨ ∃ w ∈ ws, w.Covers G x) : ws.foldl (applyWrite G) D x = v := by
  induction ws generalizing D with
  | nil => simpa using hsome
  | cons w ws ih =>
    refine ih (fun u hu => hall u (mem_cons_of_mem w hu)) ?_
    by_cases hcov : w.Covers G x
    · exact .inl (hall w mem_cons_self hcov D)
    · rw [applyWrite_of_not_covers hcov]
      refine hsome.imp_right ?_
      rintro ⟨u, hu, hux⟩
      rcases mem_cons.1 hu with rfl | hu
      · exact absurd hux hcov
      · exact ⟨u, hu, hux⟩

/-- A write of the commit: a record, a checkpoint, or the superblock. -/
def CommitStep (g : Handle) (t : Txn) (stack : List UInt8) (w : Write) : Prop :=
  w ∈ logRecords g stack ∨ (∃ e ∈ t, w.sector = e.1 * g.sectorsPerBlock ∧ w.data = e.2) ∨
    w.sector = g.journalSector 0

lemma CommitStep.good (h : CommitStep g t stack w) (ho : Opened g t) :
    Good g t w ∨ w.sector = g.journalSector 0 := by
  rcases h with hmem | hcheck | heq
  · exact .inl (.inl (logWrites_sector ho hmem))
  · exact .inl (.inr hcheck)
  · exact .inr heq

/-- **The records are on the device** once they have been written: the other writes go to
the superblock or outside the journal. -/
lemma readBlock_record (ho : Opened g t) (hf : Fits g t) (hk : LogOk g t before beyond stack)
    (hlog : ∀ w ∈ logRecords g stack, w ∈ ws)
    (hws : ∀ w ∈ ws, CommitStep g t stack w) (hlo : g.head ≤ o)
    (hhi : o ≤ g.head + 1 + g.txn.length) :
    g.readBlock (ws.foldl (applyWrite g.toGeometry) before) o = some (recordAt g stack o) := by
  have harea := lt_areaOf g t
  have hlen := length_txn ho
  have hpos := hf.head_pos
  have hoff : o < areaOf g t := by omega
  have hrec := length_recordAt ho hf hk hlo hhi
  rw [Geometry.readBlock, blockDevRead, if_pos (hf.geometry.inRange_journalSector hoff),
    ← Geometry.blockBytes]
  refine congrArg some ((slice_eq_iff hrec).2 fun i hi => ?_)
  have hin : InBlock g.toGeometry o (g.journalSector o * g.bdev.blockSize + i) :=
    ⟨Nat.le_add_right _ _, by omega⟩
  refine foldl_applyWrite_eq (fun w hw hcov D => ?_) (.inr ?_)
  · rcases hws w hw with hmem | ⟨e, he, heq, -⟩ | heq
    · obtain ⟨o', hlo', hhi', hsector, hdata⟩ := mem_logWrites hmem
      have hin' : InBlock g.toGeometry o' (g.journalSector o * g.bdev.blockSize + i) := by
        rwa [Write.Covers, hsector] at hcov
      obtain rfl := hf.geometry.inBlock_unique (by omega) hoff hin' hin
      rw [applyWrite_eq (hdata ▸ hrec), hdata, hsector, blit, if_pos (Nat.le_add_right _ _),
        Nat.add_sub_cancel_left, getElem?_eq_getElem hi]
      rfl
    · obtain ⟨hlo', hhi'⟩ := covers_checkpoint heq hcov
      exact absurd hin (hf.geometry.not_inBlock (hf.outside e he).apart hoff hlo' hhi')
    · rw [Write.Covers, heq] at hcov
      have := hf.geometry.inBlock_unique (o := 0) (by omega) hoff hcov hin
      omega
  · obtain ⟨w, hw, hsector⟩ := exists_logWrite stack hlo hhi
    refine ⟨w, hlog w hw, ?_⟩
    rwa [Write.Covers, hsector]

/-! ## Crashes after the head has moved -/

lemma AllNew.blit (hf : Fits g t) (hd : (t.map Prod.fst).Nodup) (h : AllNew g.toGeometry t Y)
    (he : e ∈ t) : AllNew g.toGeometry t (blit Y (e.1 * g.blockBytes) e.2) := by
  intro e' he'
  rw [blockAt_blit (hf.length_data he)]
  split
  · rename_i heq
    rw [← heq, newData_eq hd he]
  · exact h e' he'

section Advance

variable (ho : Opened g t) (hf : Fits g t) (hk : LogOk g t before beyond stack)

include ho hf hk

/-- Replaying the transaction itself keeps its blocks new. -/
lemma allNew_replay {is : List ℕ} (his : ∀ i ∈ is, i < g.txn.length)
    (hnew : AllNew g.toGeometry t Y)
    (hread : ∀ o, g.head ≤ o → o ≤ g.head + 1 + g.txn.length →
      g.readBlock Y o = some (recordAt g stack o)) :
    AllNew g.toGeometry t (is.foldl (replayEntry g.toGeometry g.head
      (descBlock (committing g) g.sequence ++ beyond)) Y) := by
  have harea := lt_areaOf g t
  have hlen := length_txn ho
  have hlt := hf.area_lt
  induction is generalizing Y with
  | nil => exact hnew
  | cons i is ih =>
    have hi := his i mem_cons_self
    have he := mem_of_mem_txn ho hf hk (getElem_mem hi)
    have hout := hf.outside _ he
    have hsector : g.txn[i].1 * g.sectorsPerBlock < 2 ^ 32 := hk.narrow _ he
    have hblock := hf.geometry.lt_of_sector_lt hsector
    have hfield : field (descBlock (committing g) g.sequence ++ beyond) (36 + 20 * i) 8
        = g.txn[i].1 :=
      field_descBlock_entry (g := committing g) hi (show g.txn[i].1 < 2 ^ 64 by omega)
    refine ih (fun j hj => his j (mem_cons_of_mem i hj)) ?_ ?_
    · rcases replayEntry_cases g.toGeometry g.head
        (descBlock (committing g) g.sequence ++ beyond) Y i with heq | ⟨data, hdata, heq⟩
      · rwa [heq]
      · rw [Nat.mod_eq_of_lt (by omega), hread _ (by omega) (by omega)] at hdata
        cases hdata
        have hrec : recordAt g stack (g.head + 1 + i) = g.txn[i].2 := by
          rw [recordAt, if_neg (by omega), if_neg (by omega), Nat.add_sub_cancel_left,
            getElem?_eq_getElem hi]
          rfl
        have htake : g.txn[i].2.take (g.sectorsPerBlock * g.bdev.blockSize) = g.txn[i].2 :=
          take_of_length_le (hf.length_data he).le
        rw [heq, hfield, Nat.mod_eq_of_lt (by omega), hrec, htake, Nat.mul_assoc,
          ← Geometry.blockBytes]
        exact hnew.blit hf hk.distinct he
    · intro o hlo hhi
      rw [← hread o hlo hhi]
      refine readBlock_congr fun x hx => replayEntry_area hf.geometry (hfield ▸ hout) ?_
      exact ⟨o, Nat.zero_le _, by omega, hx⟩

section

variable (hr : Redundant g t before beyond) (hlog : ∀ w ∈ logRecords g stack, w ∈ ws)
  (hws : ∀ w ∈ ws, CommitStep g t stack w)

include hr hlog hws

/-- The scan up to the new head is the scan of the old log followed by the replay of the
transaction. -/
lemma scan_after_advance {last : ℕ} (hlast : last = g.head + 1 + g.txn.length + 1) :
    ∃ disk, scan g.toGeometry beyond last (last + 1) g.tail
      (ws.foldl (applyWrite g.toGeometry) before) = some disk ∧ AllNew g.toGeometry t disk := by
  have harea := lt_areaOf g t
  have hlen := length_txn ho
  have hlt := hf.area_lt
  set D := ws.foldl (applyWrite g.toGeometry) before
  have hsim : Sim (LogBytes g.toGeometry g.tail g.head) (Allowed g t) before D :=
    sim_good hf hk.distinct fun w hw => (hws w hw).good ho
  have hseg : LogSegment g.toGeometry beyond (areaOf g t) D g.tail g.head :=
    hk.log.congr fun x hx => hsim.agree x hx
  obtain ⟨Y, k, hkle, hY, hscan⟩ := scan_segment hf.geometry hseg (by omega) fun _ _ => rfl
  -- scanned up to the old head, the image ends as `Y`, whose blocks are new
  have hnewY : AllNew g.toGeometry t Y := by
    obtain ⟨X, hscanX, hnew⟩ := hr
    obtain ⟨_, hscanY, hsimY⟩ := scan_sim hsim (fun x hx => hx) (by omega) le_rfl hscanX
    have hend := hscan g.head (g.head + 1 - k) le_rfl (by omega)
    rw [show g.head + 1 - k + k = g.head + 1 by omega, hscanY,
      show g.head + 1 - k = g.head - k + 1 by omega, scan_last] at hend
    cases hend
    exact hnew.of_sim hf hk.distinct hsimY
  have hreadY : ∀ o, g.head ≤ o → o ≤ g.head + 1 + g.txn.length →
      g.readBlock Y o = some (recordAt g stack o) := by
    intro o hlo hhi
    rw [← readBlock_record ho hf hk hlog hws hlo hhi]
    exact readBlock_congr fun x hx => hY x ⟨o, Nat.zero_le _, by omega, hx⟩
  have hdesc : g.readBlock Y g.head = some (descBlock (committing g) g.sequence) := by
    rw [hreadY g.head le_rfl (by omega), recordAt, if_pos rfl]
  have hnum : field (descBlock (committing g) g.sequence) 12 4 = g.txn.length :=
    field_descBlock_num (g := committing g) (show g.txn.length < 2 ^ 32 by
      have := ho.capacity
      have := hf.geometry.block_lt
      omega)
  have hcommit : g.readBlock Y (g.head + 1 + field (descBlock (committing g) g.sequence) 12 4)
      = some (commitBlock g.sequence stack) := by
    rw [hnum, hreadY _ (by omega) le_rfl, recordAt, if_neg (by omega), if_pos rfl]
  have hrun := hscan last (last + 1 - k) (by omega) (by omega)
  rw [show last + 1 - k + k = last + 1 by omega, show last + 1 - k = last - 1 - k + 1 + 1 by omega,
    scan_committed (by omega) (by omega) hdesc (field_descBlock_magic _ _) hcommit
      (field_commitBlock _ _), hnum, ← hlast, scan_last] at hrun
  exact ⟨_, hrun, allNew_replay ho hf hk (fun i hi => mem_range.1 hi) hnewY hreadY⟩

/-- Recovery from an image whose superblock has the new head. -/
lemma recover_after_advance {h : Handle} {b : Bool} (hgeo : h.toGeometry = g.toGeometry)
    (hhead : h.head = g.head + 1 + g.txn.length + 1) (htail : h.tail = g.tail) :
    ∃ disk, journalRecover g beyond
      ((ws ++ [jsbWrite h b]).foldl (applyWrite g.toGeometry) before) = some disk ∧
      AllNew g.toGeometry t disk := by
  have harea := lt_areaOf g t
  have hlen := length_txn ho
  have hlt := hf.area_lt
  have hjsb : g.readBlock ((ws ++ [jsbWrite h b]).foldl (applyWrite g.toGeometry) before) 0
      = some (jsbBlock h) := by
    rw [foldl_append]
    exact readBlock_jsb hf (by simp) hgeo
  have hstep : ∀ w ∈ ws ++ [jsbWrite h b], CommitStep g t stack w := by
    intro w hw
    rcases mem_append.1 hw with hw | hw
    · exact hws w hw
    · obtain rfl := mem_singleton.1 hw
      exact .inr (.inr (by rw [jsbWrite, hgeo]))
  obtain ⟨Y, hscan, hnew⟩ := scan_after_advance ho hf hk hr
    (fun w hw => mem_append_left _ (hlog w hw)) hstep hhead
  obtain ⟨_, heq⟩ := journalRecover_eq beyond hjsb (show h.head < 2 ^ 64 by omega)
    (htail ▸ hf.tail_lt)
  rw [htail, hscan] at heq
  refine ⟨_, heq, fun e he => ?_⟩
  rw [blockAt_recovered hf he]
  exact hnew e he

end

/-- The handle after the head has moved. -/
def advanced (g : Handle) : Handle :=
  { committing g with head := g.head + (1 + g.txn.length + 1) }

/-- The journal has room for the transaction. -/
lemma advanceHead_eq (D : Disk) :
    advanceHead (committing g) D (1 + g.txn.length + 1) = some (advanced g) := by
  have hroom := hk.room
  have hlen := length_txn ho
  have hpos := hf.tail_pos
  have htail := hk.log.le
  have harea : g.journalBlocks ≤ areaOf g t := le_max_left _ _
  have hlt := hf.area_lt
  exact advanceHead_of_room (g := committing g) hpos (by dsimp only [committing]; omega)
    (by dsimp only [committing]; omega) D

/-- The first five phases of a commit in the terms above. -/
lemma commitStep_commitWrites (hw : w ∈ commitWrites (committing g) g.sequence stack) :
    CommitStep g t stack w := by
  rcases mem_cons.1 hw with rfl | hw
  · exact .inr (.inr rfl)
  rw [append_cons] at hw
  rcases mem_append.1 hw with hw | hw
  · exact .inl hw
  · exact .inr (.inl (mem_checkpointWrites ho hf hk hw))

lemma inRange_commitWrites (hw : w ∈ commitWrites (committing g) g.sequence stack) :
    g.bdev.inRange w.sector g.sectorsPerBlock = true := by
  have harea := lt_areaOf g t
  rcases mem_cons.1 hw with rfl | hw
  · exact hf.geometry.inRange_journalSector (by omega)
  · exact (good_commitWrites ho hf hk hw).inRange hf

/-- The images of a commit all of whose writes succeed. -/
lemma journalCommit_eq : journalCommit g before stack =
      (issue g.toGeometry before (commitWrites (committing g) g.sequence stack)).1 ++
      (issue g.toGeometry ((commitWrites (committing g) g.sequence stack).foldl
        (applyWrite g.toGeometry) before)
        [jsbWrite (advanced g) true, jsbWrite { advanced g with dirty := false } true]).1 := by
  have htxn : g.txn ≠ [] := by
    rw [ho.txn_eq]
    simpa using hf.nonempty
  have hsnd : (issue g.toGeometry before (commitWrites (committing g) g.sequence stack)).2 =
      some ((commitWrites (committing g) g.sequence stack).foldl (applyWrite g.toGeometry)
        before) := issue_snd fun w hw => inRange_commitWrites ho hf hk hw
  unfold journalCommit
  rw [if_neg (by simp [ho.initialized, ho.inTransaction]), if_neg htxn]
  dsimp only
  rw [show ({ g with sequence := g.sequence + 1, dirty := true } : Handle) = committing g from rfl,
    hsnd]
  dsimp only
  rw [advanceHead_eq ho hf hk]
  rfl

/-- A redundant transaction survives a crash after any write of its commit. -/
lemma crashAtomic_of_redundant (hr : Redundant g t before beyond) :
    CrashAtomic g t before beyond stack := by
  have harea := lt_areaOf g t
  suffices hnew : ∀ c ∈ journalCommit g before stack, ∃ disk,
      journalRecover g beyond c.2 = some disk ∧ AllNew g.toGeometry t disk by
    intro c hc
    obtain ⟨disk, hrecover, hall⟩ := hnew c hc
    exact ⟨disk, hrecover, .inr hall, fun _ => hall⟩
  intro c hc
  rw [journalCommit_eq ho hf hk] at hc
  rcases mem_append.1 hc with hc | hc
  · -- the head on the device is still the old one
    obtain ⟨ws1, w, ws2, hsplit, rfl⟩ :=
      exists_of_mem_issue (fun w hw => inRange_commitWrites ho hf hk hw) hc
    cases ws1 with
    | nil =>
      obtain ⟨rfl, -⟩ := cons.inj hsplit
      exact recover_before_advance hf hk.distinct hr (fun u hu => absurd hu not_mem_nil)
    | cons v ws1 =>
      obtain ⟨rfl, hrest⟩ := cons.inj hsplit
      refine recover_before_advance hf hk.distinct hr fun u hu => good_commitWrites ho hf hk ?_
      have hu' : u ∈ ws1 ++ [w] := hu
      rw [hrest]
      change u ∈ ws1 ++ w :: ws2
      rw [append_cons]
      exact mem_append_left ws2 hu'
  · -- the superblock has been written with the new head
    have hlog : ∀ w ∈ logRecords g stack, w ∈ commitWrites (committing g) g.sequence stack := by
      intro w hw
      refine mem_cons_of_mem _ ?_
      rw [append_cons]
      exact mem_append_left _ hw
    have hstep := fun w hw => commitStep_commitWrites (w := w) ho hf hk hw
    have hzero : ∀ w ∈ [jsbWrite (advanced g) true,
        jsbWrite { advanced g with dirty := false } true],
        g.bdev.inRange w.sector g.sectorsPerBlock = true := by
      intro w hw
      rcases mem_pair.1 hw with rfl | rfl <;>
        exact hf.geometry.inRange_journalSector (by omega)
    have hhead : g.head + (1 + g.txn.length + 1) = g.head + 1 + g.txn.length + 1 := by omega
    rw [issue_cons (hzero _ (by simp)), issue_cons (hzero _ (by simp))] at hc
    rcases mem_pair.1 hc with rfl | rfl
    · have := recover_after_advance (b := true) (h := advanced g) ho hf hk hr hlog hstep rfl
        hhead rfl
      rwa [foldl_append] at this
    · have hstep2 : ∀ w ∈ commitWrites (committing g) g.sequence stack ++
          [jsbWrite (advanced g) true], CommitStep g t stack w := by
        intro w hw
        rcases mem_append.1 hw with hw | hw
        · exact hstep w hw
        · obtain rfl := mem_singleton.1 hw
          exact .inr (.inr rfl)
      have := recover_after_advance (b := true) (h := { advanced g with dirty := false }) ho hf hk
        hr (fun w hw => mem_append_left _ (hlog w hw)) hstep2 rfl hhead rfl
      rwa [append_assoc, foldl_append] at this

end Advance

/-! ## The characterisation -/

/-- **Only redundant transactions are crash atomic**: a commit that survives every crash is
one whose blocks the old log already installs; on a well-formed log with room for the
transaction these are the same. -/
theorem crashAtomic_redundant {g₀ : Handle} {maxBlocks : ℕ}
    (hopen : openTxn g₀ maxBlocks t = some g) (hf : Fits g t) :
    (CrashAtomic g t before beyond stack → Redundant g t before beyond) ∧
      (LogOk g t before beyond stack →
        (CrashAtomic g t before beyond stack ↔ Redundant g t before beyond)) := by
  have ho := opened_of_openTxn hopen
  refine ⟨redundant_of_crashAtomic ho hf, fun hk => ⟨redundant_of_crashAtomic ho hf, ?_⟩⟩
  exact crashAtomic_of_redundant ho hf hk

/-- A fresh journal of 16 blocks at block 8 of a small device. -/
def sampleHandle : Handle :=
  { bdev := ⟨512, 64⟩, blockSize := 512, journalStart := 8, journalBlocks := 16,
    fsTotalBlocks := 8, head := 1, tail := 1, sequence := 1, initialized := true,
    inTransaction := false, txnCapacity := 0, txn := [], dirty := false }

/-- A transaction that fills block 0 with a byte. -/
def sampleTxn (v : UInt8) : Txn := [(0, List.replicate 512 v)]

/-- The handle when that transaction is committed. -/
def sampleOpened (v : UInt8) : Handle :=
  { sampleHandle with inTransaction := true, txnCapacity := 1, txn := sampleTxn v }

lemma openTxn_sample (v : UInt8) :
    openTxn sampleHandle 1 (sampleTxn v) = some (sampleOpened v) := rfl

lemma sectorsPerBlock_sample (v : UInt8) : (sampleOpened v).sectorsPerBlock = 1 :=
  Nat.div_self (show 0 < 512 by decide)

lemma fits_sample (v : UInt8) : Fits (sampleOpened v) (sampleTxn v) where
  geometry := ⟨show 0 < 512 by decide, show 512 ∣ 512 from dvd_rfl, show 512 ≤ 512 from le_rfl,
    show 512 < 2 ^ 32 by decide, by
      rw [sectorsPerBlock_sample]
      exact show (8 + 16) * 1 ≤ 64 by decide, show 64 < 2 ^ 64 by decide⟩
  head_pos := le_rfl
  tail_pos := le_rfl
  tail_lt := show 1 < 2 ^ 64 by decide
  area_lt := show 16 < 2 ^ 63 by decide
  nonempty := cons_ne_nil _ _
  outside e he := by
    obtain rfl := mem_singleton.1 he
    refine ⟨.inl (show 0 < 8 by decide), ?_⟩
    rw [sectorsPerBlock_sample]
    exact show 1 * 1 ≤ 64 by decide
  data_length e he := by
    obtain rfl := mem_singleton.1 he
    exact length_replicate

lemma logOk_sample (v : UInt8) (before : Disk) :
    LogOk (sampleOpened v) (sampleTxn v) before [] (List.replicate 480 0) where
  room := show 1 + 1 + 1 + 1 < 16 by decide
  distinct := nodup_singleton 0
  narrow e he := by
    obtain rfl := mem_singleton.1 he
    rw [sectorsPerBlock_sample]
    exact show 0 * 1 < 2 ^ 32 by decide
  stack_length := congrArg (32 + ·) length_replicate
  log := .nil 1

lemma blockAt_sample (v : UInt8) :
    blockAt (sampleOpened v).toGeometry (fun _ => 0) 0 = List.replicate 512 0 := by
  simp [blockAt, slice, Geometry.blockBytes, Geometry.sectorsPerBlock, sampleOpened, sampleHandle,
    map_const']

/-- Writing zeros to a device of zeros survives every crash. -/
theorem crashAtomic_zeros :
    CrashAtomic (sampleOpened 0) (sampleTxn 0) (fun _ => 0) [] (List.replicate 480 0) := by
  refine ((crashAtomic_redundant (openTxn_sample 0) (fits_sample 0)).2
    (logOk_sample 0 _)).2 ⟨fun _ => 0, rfl, fun e he => ?_⟩
  obtain rfl := mem_singleton.1 he
  exact blockAt_sample 0

/-- Writing ones to a device of zeros does not: after the commit record has been written,
recovery leaves the block as it was. -/
theorem not_crashAtomic_ones :
    Fits (sampleOpened 1) (sampleTxn 1) ∧
      ¬ CrashAtomic (sampleOpened 1) (sampleTxn 1) (fun _ => 0) [] (List.replicate 480 0) := by
  refine ⟨fits_sample 1, fun h => ?_⟩
  obtain ⟨disk, hscan, hnew⟩ :=
    redundant_of_crashAtomic (opened_of_openTxn (openTxn_sample 1)) (fits_sample 1) h
  cases hscan
  have hblock := hnew (0, List.replicate 512 1) (mem_singleton.2 rfl)
  rw [blockAt_sample 1] at hblock
  have hhead := congrArg head? hblock
  revert hhead
  decide

end Aurora.Journal
