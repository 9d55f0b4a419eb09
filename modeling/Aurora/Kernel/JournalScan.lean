import Aurora.Kernel.Journal

/-!
# What the scan of the log depends on

The scan reads only the blocks of the log between the tail and the head. Two images
that agree there are treated alike: the same blocks are replayed on both. A log that
is a sequence of committed transactions is scanned to its end.

## Main definitions

* `Sim J P X Y`: the images agree on `J`, and where they differ `Y` satisfies `P`.
* `scan_sim`: the scan keeps `Sim`.
* `LogSegment`: a sequence of committed transactions.
-/

namespace Aurora.Journal

open Lib List Option

variable {g : Geometry} {beyond : List UInt8} {X Y X' D : Disk} {J : ℕ → Prop}
  {P : ℕ → UInt8 → Prop} {pos last fuel : ℕ}

/-- The number of bytes in a block. -/
def Geometry.blockBytes (g : Geometry) : ℕ := g.sectorsPerBlock * g.bdev.blockSize

/-- The bytes of a block of the journal area. -/
def InBlock (g : Geometry) (offset x : ℕ) : Prop :=
  g.journalSector offset * g.bdev.blockSize ≤ x ∧
    x < g.journalSector offset * g.bdev.blockSize + g.blockBytes

/-- The bytes of the blocks from `lo` up to `hi`. -/
def LogBytes (g : Geometry) (lo hi x : ℕ) : Prop := ∃ off, lo ≤ off ∧ off < hi ∧ InBlock g off x

lemma readBlock_congr {offset : ℕ} (h : ∀ x, InBlock g offset x → Y x = X x) :
    g.readBlock Y offset = g.readBlock X offset := by
  unfold Geometry.readBlock blockDevRead
  split
  · congr 1
    refine slice_congr fun i hi => h _ ⟨Nat.le_add_right _ _, ?_⟩
    exact Nat.add_lt_add_left hi _
  · rfl

/-! ## Two images -/

/-- The images agree on `J`; where they differ, the second satisfies `P`. -/
structure Sim (J : ℕ → Prop) (P : ℕ → UInt8 → Prop) (X Y : Disk) : Prop where
  agree : ∀ x, J x → Y x = X x
  differ : ∀ x, Y x = X x ∨ P x (Y x)

/-- The same write on both sides. -/
lemma Sim.blit (h : Sim J P X Y) (off : ℕ) (xs : List UInt8) :
    Sim J P (blit X off xs) (blit Y off xs) := by
  constructor <;> intro x
  · intro hx
    rcases blit_cases off xs x with ⟨v, hv⟩ | hid
    · rw [hv, hv]
    · rw [hid, hid, h.agree x hx]
  · rcases blit_cases off xs x with ⟨v, hv⟩ | hid
    · exact .inl (by rw [hv, hv])
    · rw [hid, hid]
      exact h.differ x

lemma Sim.blockDevWrite (h : Sim J P X Y) (bdev : BlockDevice) (data : List UInt8)
    (sector count : ℕ) : Sim J P ((blockDevWrite bdev X data sector count).getD X)
      ((blockDevWrite bdev Y data sector count).getD Y) := by
  unfold Journal.blockDevWrite
  split
  · exact h.blit _ _
  · exact h

variable {desc : List UInt8}

lemma Sim.replayEntry (h : Sim J P X Y) {i : ℕ}
    (hread : ∀ x, InBlock g ((pos + 1 + i) % 2 ^ 64) x → J x) :
    Sim J P (replayEntry g pos desc X i) (replayEntry g pos desc Y i) := by
  have hblock := readBlock_congr fun x hx => h.agree x (hread x hx)
  unfold Journal.replayEntry
  dsimp only
  rw [hblock]
  split
  · exact h
  · cases g.readBlock X ((pos + 1 + i) % 2 ^ 64) with
    | none => exact h
    | some _ =>
      dsimp only
      split
      · exact h.blockDevWrite _ _ _ _
      · exact h

lemma Sim.foldl_replayEntry (h : Sim J P X Y) {is : List ℕ}
    (hread : ∀ i ∈ is, ∀ x, InBlock g ((pos + 1 + i) % 2 ^ 64) x → J x) :
    Sim J P (is.foldl (Journal.replayEntry g pos desc) X)
      (is.foldl (Journal.replayEntry g pos desc) Y) := by
  induction is generalizing X Y with
  | nil => exact h
  | cons i is ih =>
    refine ih (h.replayEntry (hread i mem_cons_self)) fun j hj => ?_
    exact hread j (mem_cons_of_mem i hj)

/-- **The scan treats two images alike** that agree on the log. -/
lemma scan_sim {lo : ℕ} (h : Sim J P X Y) (hJ : ∀ x, LogBytes g lo last x → J x)
    (hlast : last < 2 ^ 63) (hlo : lo ≤ pos) (hscan : scan g beyond last fuel pos X = some X') :
    ∃ Y', scan g beyond last fuel pos Y = some Y' ∧ Sim J P X' Y' := by
  induction fuel generalizing pos X Y with
  | zero => cases hscan
  | succ fuel ih =>
    have hread : ∀ off, lo ≤ off → off < last → g.readBlock Y off = g.readBlock X off :=
      fun off hlo hlt => readBlock_congr fun x hx => h.agree x (hJ x ⟨off, hlo, hlt, hx⟩)
    unfold scan at hscan ⊢
    split at hscan
    case isFalse hpos =>
      rw [if_neg hpos]
      exact ⟨Y, rfl, some.inj hscan ▸ h⟩
    case isTrue hpos =>
      rw [if_pos hpos, hread pos hlo hpos]
      cases hhdr : g.readBlock X pos with
      | none =>
        rw [hhdr] at hscan
        exact ⟨Y, rfl, some.inj hscan ▸ h⟩
      | some hdr =>
        rw [hhdr] at hscan
        dsimp only at hscan ⊢
        split at hscan
        case isTrue hmagic =>
          rw [if_pos hmagic]
          exact ih h (by omega) hscan
        case isFalse hmagic =>
          rw [if_neg hmagic]
          have hn : field hdr 12 4 < 256 ^ 4 := field_lt hdr 12 4
          rw [Nat.mod_eq_of_lt (show pos + 1 + field hdr 12 4 < 2 ^ 64 by omega)] at hscan ⊢
          split at hscan
          case isTrue hend =>
            rw [if_pos hend]
            exact ⟨Y, rfl, some.inj hscan ▸ h⟩
          case isFalse hend =>
            rw [if_neg hend, hread _ (by omega) (by omega)]
            cases hcmt : g.readBlock X (pos + 1 + field hdr 12 4) with
            | none =>
              rw [hcmt] at hscan
              exact ⟨Y, rfl, some.inj hscan ▸ h⟩
            | some _ =>
              rw [hcmt] at hscan
              dsimp only at hscan ⊢
              rw [Nat.mod_eq_of_lt (show pos + 1 + field hdr 12 4 + 1 < 2 ^ 64 by omega)]
                at hscan ⊢
              split at hscan
              case isTrue hcommit =>
                rw [if_pos hcommit]
                exact ih h (by omega) hscan
              case isFalse hcommit =>
                rw [if_neg hcommit]
                refine ih (h.foldl_replayEntry ?_) (by omega) hscan
                intro i hi x hx
                have hi' : i < field hdr 12 4 := mem_range.1 hi
                exact hJ x ⟨_, by omega, by omega, hx⟩

/-! ## The journal area -/

/-- The first `area` blocks from the start of the journal lie on the device, and blocks
consist of whole sectors. -/
structure GeometryOk (g : Geometry) (area : ℕ) : Prop where
  sector_pos : 0 < g.bdev.blockSize
  dvd : g.bdev.blockSize ∣ g.blockSize
  block_ge : 512 ≤ g.blockSize
  block_lt : g.blockSize < 2 ^ 32
  fits : (g.journalStart + area) * g.sectorsPerBlock ≤ g.bdev.totalSectors
  total_lt : g.bdev.totalSectors < 2 ^ 64

/-- A block of the device that is not one of these blocks. -/
structure Outside (g : Geometry) (area b : ℕ) : Prop where
  apart : b < g.journalStart ∨ g.journalStart + area ≤ b
  exists_on : (b + 1) * g.sectorsPerBlock ≤ g.bdev.totalSectors

variable {x : ℕ}

namespace GeometryOk

variable {area off b : ℕ} (hg : GeometryOk g area)

include hg

lemma blockBytes_eq : g.blockBytes = g.blockSize := Nat.div_mul_cancel hg.dvd

lemma sectorsPerBlock_pos : 0 < g.sectorsPerBlock :=
  Nat.div_pos (Nat.le_of_dvd (by have := hg.block_ge; omega) hg.dvd) hg.sector_pos

lemma journalSector_eq (hoff : off < area) :
    g.journalSector off = (g.journalStart + off) * g.sectorsPerBlock := by
  have hpos := hg.sectorsPerBlock_pos
  have hle : (g.journalStart + off) * g.sectorsPerBlock ≤
      (g.journalStart + area) * g.sectorsPerBlock := Nat.mul_le_mul_right _ (by omega)
  have hle' : g.journalStart + off ≤ (g.journalStart + off) * g.sectorsPerBlock :=
    Nat.le_mul_of_pos_right _ hpos
  have := hg.fits
  have := hg.total_lt
  have hmod : (g.journalStart + off) % 2 ^ 64 = g.journalStart + off := Nat.mod_eq_of_lt (by omega)
  rw [Geometry.journalSector, hmod, Nat.mod_eq_of_lt (by omega)]

lemma lt_of_sector_lt (h : b * g.sectorsPerBlock < 2 ^ 32) : b < 2 ^ 32 :=
  (Nat.le_mul_of_pos_right _ hg.sectorsPerBlock_pos).trans_lt h

/-- A block of the device is read whole. -/
lemma inRange_block (h : (b + 1) * g.sectorsPerBlock ≤ g.bdev.totalSectors) :
    g.bdev.inRange (b * g.sectorsPerBlock) g.sectorsPerBlock = true := by
  have hpos := hg.sectorsPerBlock_pos
  rw [Nat.succ_mul] at h
  simp only [BlockDevice.inRange, Bool.and_eq_true, decide_eq_true_eq]
  omega

lemma inRange_journalSector (hoff : off < area) :
    g.bdev.inRange (g.journalSector off) g.sectorsPerBlock = true := by
  rw [hg.journalSector_eq hoff]
  exact hg.inRange_block ((Nat.mul_le_mul_right _ (by omega)).trans hg.fits)

lemma journalSector_mul (hoff : off < area) :
    g.journalSector off * g.bdev.blockSize = (g.journalStart + off) * g.blockBytes := by
  rw [hg.journalSector_eq hoff, Geometry.blockBytes, Nat.mul_assoc]

lemma inBlock_iff (hoff : off < area) :
    InBlock g off x ↔ (g.journalStart + off) * g.blockBytes ≤ x ∧
      x < (g.journalStart + off + 1) * g.blockBytes := by
  rw [InBlock, hg.journalSector_mul hoff, Nat.succ_mul]

end GeometryOk

/-- The bytes of two blocks of the device are apart. -/
lemma block_disjoint {n a b : ℕ} (hab : a ≠ b) (ha : a * n ≤ x) (ha' : x < (a + 1) * n) :
    x < b * n ∨ (b + 1) * n ≤ x := by
  rcases Nat.lt_or_gt_of_ne hab with h | h
  · have : (a + 1) * n ≤ b * n := Nat.mul_le_mul_right n h
    exact .inl (by omega)
  · have : (b + 1) * n ≤ a * n := Nat.mul_le_mul_right n h
    exact .inr (by omega)

variable {area : ℕ}

/-- A write to a block outside the area leaves the area alone. -/
lemma blit_outside {b : ℕ} (hg : GeometryOk g area) (hb : Outside g area b) {data : List UInt8}
    (hx : LogBytes g 0 area x) :
    blit D (b * g.sectorsPerBlock * g.bdev.blockSize)
      (data.take (g.sectorsPerBlock * g.bdev.blockSize)) x = D x := by
  obtain ⟨off, -, hoff, hx⟩ := hx
  rw [hg.inBlock_iff hoff] at hx
  have hne : g.journalStart + off ≠ b := by
    have := hb.apart
    omega
  rw [Nat.mul_assoc, ← Geometry.blockBytes]
  rcases block_disjoint hne hx.1 hx.2 with h | h
  · exact blit_of_lt h
  · refine blit_of_ge (le_trans ?_ h)
    rw [Nat.succ_mul, length_take]
    omega

/-! ## Well-formed logs -/

/-- A sequence of committed transactions from `pos` to `mid`, whose blocks lie outside the
journal area. -/
inductive LogSegment (g : Geometry) (beyond : List UInt8) (area : ℕ) (D : Disk) : ℕ → ℕ → Prop
  | nil (pos : ℕ) : LogSegment g beyond area D pos pos
  | cons {pos mid : ℕ} {hdr cmt : List UInt8}
      (hhdr : g.readBlock D pos = some hdr) (hdesc : field hdr 0 4 = magicDesc)
      (hcmt : g.readBlock D (pos + 1 + field hdr 12 4) = some cmt)
      (hcommit : field cmt 0 4 = magicCommit)
      (hout : ∀ i < field hdr 12 4, Outside g area (field (hdr ++ beyond) (36 + 20 * i) 8))
      (hrest : LogSegment g beyond area D (pos + 1 + field hdr 12 4 + 1) mid) :
      LogSegment g beyond area D pos mid

variable {mid : ℕ}

lemma LogSegment.le {pos : ℕ} (h : LogSegment g beyond area D pos mid) : pos ≤ mid := by
  induction h with
  | nil pos => exact le_rfl
  | cons _ _ _ _ _ _ _ => omega

/-- A log depends on its own blocks only. -/
lemma LogSegment.congr (h : LogSegment g beyond area D pos mid)
    (heq : ∀ x, LogBytes g pos mid x → Y x = D x) : LogSegment g beyond area Y pos mid := by
  induction h with
  | nil pos => exact .nil pos
  | @cons pos mid hdr cmt hhdr hdesc hcmt hcommit hout hrest ih =>
    have hle := hrest.le
    have hread : ∀ off, pos ≤ off → off < mid → g.readBlock Y off = g.readBlock D off :=
      fun off hlo hhi => readBlock_congr fun x hx => heq x ⟨off, hlo, hhi, hx⟩
    refine .cons ((hread _ le_rfl (by omega)).trans hhdr) hdesc
      ((hread _ (by omega) (by omega)).trans hcmt) hcommit hout (ih ?_)
    rintro x ⟨off, hlo, hhi, hx⟩
    exact heq x ⟨off, by omega, hhi, hx⟩

/-- What one entry can do: nothing, or copy its data to its block. -/
lemma replayEntry_cases (g : Geometry) (pos : ℕ) (desc : List UInt8) (Y : Disk) (i : ℕ) :
    replayEntry g pos desc Y i = Y ∨ ∃ data, g.readBlock Y ((pos + 1 + i) % 2 ^ 64) = some data ∧
        replayEntry g pos desc Y i =
          blit Y (field desc (36 + 20 * i) 8 * g.sectorsPerBlock % 2 ^ 64 * g.bdev.blockSize)
            (data.take (g.sectorsPerBlock * g.bdev.blockSize)) := by
  unfold replayEntry
  dsimp only
  split_ifs
  · exact .inl rfl
  · cases g.readBlock Y ((pos + 1 + i) % 2 ^ 64) with
    | none => exact .inl rfl
    | some data =>
      dsimp only [blockDevWrite]
      split_ifs
      · exact .inr ⟨data, rfl, rfl⟩
      · exact .inl rfl
      · exact .inl rfl

/-- Replaying an entry whose block is outside the area keeps the area. -/
lemma replayEntry_area {i : ℕ} (hg : GeometryOk g area)
    (hout : Outside g area (field desc (36 + 20 * i) 8)) (hx : LogBytes g 0 area x) :
    replayEntry g pos desc Y i x = Y x := by
  have hlt : field desc (36 + 20 * i) 8 * g.sectorsPerBlock < 2 ^ 64 := by
    have hon := hout.exists_on
    have := hg.total_lt
    rw [Nat.succ_mul] at hon
    omega
  rcases replayEntry_cases g pos desc Y i with heq | ⟨_, -, heq⟩
  · rw [heq]
  · rw [heq, Nat.mod_eq_of_lt hlt]
    exact blit_outside hg hout hx

lemma foldl_replayEntry_area {is : List ℕ} (hg : GeometryOk g area)
    (hout : ∀ i ∈ is, Outside g area (field desc (36 + 20 * i) 8)) (hx : LogBytes g 0 area x) :
    is.foldl (replayEntry g pos desc) Y x = Y x := by
  induction is generalizing Y with
  | nil => rfl
  | cons i is ih =>
    rw [foldl_cons, ih fun j hj => hout j (mem_cons_of_mem i hj)]
    exact replayEntry_area hg (hout i mem_cons_self) hx

lemma scan_last (Y : Disk) : scan g beyond last (fuel + 1) last Y = some Y := by
  simp [scan]

/-- One committed transaction of the log. -/
lemma scan_committed {hdr cmt : List UInt8} (hpos : pos + 1 + field hdr 12 4 < last)
    (hlast : last < 2 ^ 63) (hhdr : g.readBlock Y pos = some hdr)
    (hdesc : field hdr 0 4 = magicDesc)
    (hcmt : g.readBlock Y (pos + 1 + field hdr 12 4) = some cmt)
    (hcommit : field cmt 0 4 = magicCommit) :
    scan g beyond last (fuel + 1) pos Y = scan g beyond last fuel (pos + 1 + field hdr 12 4 + 1)
      ((List.range (field hdr 12 4)).foldl (replayEntry g pos (hdr ++ beyond)) Y) := by
  rw [scan, if_pos (by omega), hhdr]
  dsimp only
  rw [if_neg (not_not.2 hdesc), Nat.mod_eq_of_lt (by omega), if_neg (by omega), hcmt]
  dsimp only
  rw [if_neg (by simp [hcommit]), Nat.mod_eq_of_lt (by omega)]

/-- **A well-formed log is scanned to its end**, whatever follows it. -/
lemma scan_segment (hg : GeometryOk g area) (h : LogSegment g beyond area D pos mid)
    (hmid : mid ≤ area) (hY : ∀ x, LogBytes g 0 area x → Y x = D x) :
    ∃ Y' k, k ≤ mid - pos ∧ (∀ x, LogBytes g 0 area x → Y' x = D x) ∧
      ∀ last fuel, mid ≤ last → last < 2 ^ 63 →
        scan g beyond last (fuel + k) pos Y = scan g beyond last fuel mid Y' := by
  induction h generalizing Y with
  | nil pos => exact ⟨Y, 0, by omega, hY, fun _ _ _ _ => rfl⟩
  | @cons pos mid hdr cmt hhdr hdesc hcmt hcommit hout hrest ih =>
    have hle := hrest.le
    have hread : ∀ off, off < area → g.readBlock Y off = g.readBlock D off := fun off hoff =>
      readBlock_congr fun x hx => hY x ⟨off, Nat.zero_le _, hoff, hx⟩
    have hkeep : ∀ x, LogBytes g 0 area x → (List.range (field hdr 12 4)).foldl
        (replayEntry g pos (hdr ++ beyond)) Y x = D x := fun x hx =>
      (foldl_replayEntry_area hg (fun i hi => hout i (mem_range.1 hi)) hx).trans (hY x hx)
    obtain ⟨Y', k, hk, hY', hscan⟩ := ih hmid hkeep
    refine ⟨Y', k + 1, by omega, hY', fun last fuel hlast hlt => ?_⟩
    rw [← Nat.add_assoc, scan_committed (by omega) hlt ((hread _ (by omega)).trans hhdr) hdesc
      ((hread _ (by omega)).trans hcmt) hcommit]
    exact hscan last fuel hlast hlt

end Aurora.Journal
