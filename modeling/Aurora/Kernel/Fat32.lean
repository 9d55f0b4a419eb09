import Aurora.Kernel.Task
import Aurora.Lib.Bytes

/-!
# The file allocation table

The model of the FAT operations in `fat32.c`: reading and writing an entry, finding a
free cluster, appending to a chain and freeing a chain. The device is a sequence of
sectors of `bytes_per_sector` bytes and its transfers succeed. The memory for a sector
buffer comes from `kmalloc`, whose answers are part of the state.

The table is refined to a function from clusters to 28-bit values: `Synced s t` says
that the cache and every copy on the device hold `t`. One lemma for each operation says
what it does to `t` while memory does not run out.

## Main definitions

* `Geometry`, `Sbi`: the layout of the volume, and the state of the driver.
* `fat32GetCluster`, `fat32SetCluster`, `fat32FindFreeCluster`, `fat32AppendCluster`,
  `fat32FreeClusterChain`: the operations.
* `Synced`, `Ready`: the refinement, and memory that does not run out.
-/

namespace Aurora.Fat32

open Lib Function

/-! ## The volume -/

/-- The fields of `struct fat32_sb_info` that mounting sets. The table has an entry for
each cluster, and no cluster number is a mark. -/
structure Geometry where
  bytesPerSector : ℕ
  numFats : ℕ
  sectorsPerFat : ℕ
  fatStart : ℕ
  totalClusters : ℕ
  /-- The format wants a power of two; mounting checks only the range. -/
  aligned : 4 ∣ bytesPerSector
  sector_pos : 0 < bytesPerSector
  fats_pos : 0 < numFats
  covers : (totalClusters + 2) * 4 ≤ sectorsPerFat * bytesPerSector
  numbers : totalClusters + 2 ≤ 0x0FFFFFF0

/-- `struct fat32_sb_info` with the device behind it. -/
structure Sbi where
  geo : Geometry
  /-- `fat_cache`, with the entries as they were read. -/
  fatCache : Option (ℕ → ℕ)
  /-- The bytes of each sector. -/
  disk : ℕ → ℕ → UInt8
  /-- What the next calls of `kmalloc` answer. -/
  mem : ℕ → Bool

/-- `FAT32_CLUSTER_FREE`. -/
def clusterFree : ℕ := 0

/-- `FAT32_CLUSTER_EOC_MIN`. -/
def eocMin : ℕ := 0x0FFFFFF8

/-- `FAT32_CLUSTER_EOC_MAX`. -/
def eocMax : ℕ := 0x0FFFFFFF

/-- `FAT32_MAX_CLUSTER_CHAIN`. -/
def maxClusterChain : ℕ := 4096

/-- `value & FAT32_CLUSTER_MASK`. -/
def clusterMask (value : ℕ) : ℕ := value % 2 ^ 28

/-- `fat32_valid_cluster`. -/
def validCluster (cluster : ℕ) : Bool :=
  if cluster = 0 then false
  else if cluster = 1 then false
  else if cluster ≥ eocMin then false
  else if cluster ≥ 0x0FFFFFF0 then false
  else true

/-! ## Entries -/

def kmalloc (s : Sbi) : Bool × Sbi := (s.mem 0, { s with mem := fun n => s.mem (n + 1) })

/-- `fat_sector` of a cluster in the first copy. -/
def Geometry.fatSector (g : Geometry) (cluster : ℕ) : ℕ :=
  g.fatStart + cluster * 4 / g.bytesPerSector

/-- `offset_in_sector`. -/
def Geometry.offsetInSector (g : Geometry) (cluster : ℕ) : ℕ := cluster * 4 % g.bytesPerSector

/-- `fat32_get_cluster`. -/
def fat32GetCluster (s : Sbi) (cluster : ℕ) : ℕ × Sbi :=
  if cluster < 2 ∨ cluster ≥ eocMax then (eocMax, s)
  else if cluster ≥ s.geo.totalClusters + 2 then (eocMax, s)
  else
    match s.fatCache with
    | some cache => (clusterMask (cache cluster), s)
    | none =>
      let m := kmalloc s
      if m.1 = false then (eocMax, m.2)
      else
        let buf := s.disk (s.geo.fatSector cluster)
        (clusterMask (getLE buf (s.geo.offsetInSector cluster) 4), m.2)

/-- The loop over the copies of the table: each sector is read, changed and written
back. -/
def writeCopies (g : Geometry) (disk : ℕ → ℕ → UInt8) (cluster value : ℕ) : ℕ → ℕ → ℕ → UInt8
  | 0 => disk
  | fat + 1 =>
    let disk := writeCopies g disk cluster value fat
    let sec := g.fatSector cluster + fat * g.sectorsPerFat
    Function.update disk sec (putLE (disk sec) (g.offsetInSector cluster) 4 value)

/-- `fat32_set_cluster`. -/
def fat32SetCluster (s : Sbi) (cluster value : ℕ) : ℤ × Sbi :=
  if cluster < 2 ∨ cluster ≥ eocMax then (-Errno.EINVAL.code, s)
  else if cluster ≥ s.geo.totalClusters + 2 then (-Errno.EINVAL.code, s)
  else
    let value := clusterMask value
    let s := { s with fatCache := s.fatCache.map fun cache => Function.update cache cluster value }
    let m := kmalloc s
    -- the cache keeps the new value
    if m.1 = false then (-Errno.ENOMEM.code, m.2)
    else (0, { m.2 with disk := writeCopies s.geo s.disk cluster value s.geo.numFats })

/-! ## Chains -/

/-- The loop of `fat32_find_free_cluster` over the `n` clusters from `cluster` on. -/
def findFreeFrom (s : Sbi) (cluster : ℕ) : ℕ → ℕ × Sbi
  | 0 => (0, s)
  | n + 1 =>
    let r := fat32GetCluster s cluster
    if r.1 = clusterFree then (cluster, (fat32SetCluster r.2 cluster eocMax).2)
    else findFreeFrom r.2 (cluster + 1) n

/-- `fat32_find_free_cluster`. -/
def fat32FindFreeCluster (s : Sbi) : ℕ × Sbi := findFreeFrom s 2 s.geo.totalClusters

/-- `fat32_append_cluster`. -/
def fat32AppendCluster (s : Sbi) (lastCluster : ℕ) : ℕ × Sbi :=
  let r := fat32FindFreeCluster s
  if r.1 = 0 then (0, r.2)
  else if 2 ≤ lastCluster ∧ lastCluster < eocMin then
    (r.1, (fat32SetCluster r.2 lastCluster r.1).2)
  else r

/-- The loop of `fat32_free_cluster_chain`, with `max_steps` and `chain_count`. -/
def freeFrom (s : Sbi) (cluster chainCount : ℕ) : ℕ → ℤ × Sbi
  | 0 => (0, s)
  | maxSteps + 1 =>
    if validCluster cluster then
      if chainCount + 1 > maxClusterChain then (- Errno.EIO.code, s)
      else
        let r := fat32GetCluster s cluster
        let s := (fat32SetCluster r.2 cluster clusterFree).2
        if validCluster r.1 then freeFrom s r.1 (chainCount + 1) maxSteps else (0, s)
    else (0, s)

/-- `fat32_free_cluster_chain`. -/
def fat32FreeClusterChain (s : Sbi) (startCluster : ℕ) : ℤ × Sbi :=
  freeFrom s startCluster 0 (s.geo.totalClusters + 2)

/-! ## The table behind the bytes -/

/-- The cluster has an entry. -/
def Geometry.Has (g : Geometry) (c : ℕ) : Prop := 2 ≤ c ∧ c < g.totalClusters + 2

/-- The 28-bit value of an entry in copy number `fat`. -/
def Sbi.entry (s : Sbi) (fat c : ℕ) : ℕ :=
  clusterMask (getLE (s.disk (s.geo.fatSector c + fat * s.geo.sectorsPerFat))
    (s.geo.offsetInSector c) 4)

/-- **The refinement**: the cache and every copy on the device hold the table `t`. -/
structure Synced (s : Sbi) (t : ℕ → ℕ) : Prop where
  copies : ∀ c, s.geo.Has c → ∀ fat < s.geo.numFats, s.entry fat c = t c
  cache : ∀ cache, s.fatCache = some cache → ∀ c, s.geo.Has c → clusterMask (cache c) = t c

/-- Memory does not run out. -/
def Ready (s : Sbi) : Prop := ∀ n, s.mem n = true

variable {g : Geometry} {s : Sbi} {t : ℕ → ℕ} {c d fat fat' : ℕ}

lemma clusterMask_clusterMask (v : ℕ) : clusterMask (clusterMask v) = clusterMask v :=
  Nat.mod_mod _ _

lemma clusterMask_of_lt {v : ℕ} (h : v < 2 ^ 28) : clusterMask v = v := Nat.mod_eq_of_lt h

lemma Geometry.Has.lt (h : g.Has c) : c < 0x0FFFFFF0 := by
  have := g.numbers
  have := h.2
  omega

lemma Geometry.Has.validCluster (h : g.Has c) : validCluster c = true := by
  have hlt := h.lt
  have hge := h.1
  unfold Fat32.validCluster eocMin
  rw [if_neg (by omega), if_neg (by omega), if_neg (by omega), if_neg (by omega)]

/-- An entry lies within one sector of its copy. -/
lemma sector_lt (h : g.Has c) : c * 4 / g.bytesPerSector < g.sectorsPerFat := by
  rw [Nat.div_lt_iff_lt_mul g.sector_pos]
  have := g.covers
  have := h.2
  omega

lemma offsetInSector_dvd (g : Geometry) (c : ℕ) : 4 ∣ g.offsetInSector c :=
  (Nat.dvd_mod_iff g.aligned).2 (Dvd.intro_left c rfl)

/-- Entries in different copies or of different clusters do not overlap. -/
lemma disjoint_entries (hc : g.Has c) (hd : g.Has d) (hne : c ≠ d ∨ fat ≠ fat')
    (hsec : g.fatSector c + fat * g.sectorsPerFat = g.fatSector d + fat' * g.sectorsPerFat) :
    g.offsetInSector c + 4 ≤ g.offsetInSector d ∨ g.offsetInSector d + 4 ≤ g.offsetInSector c := by
  have hlt := sector_lt hc
  have hlt' := sector_lt hd
  have hpos : 0 < g.sectorsPerFat := (Nat.zero_le _).trans_lt hlt
  -- the sector determines the copy and the sector within it
  have hsum : c * 4 / g.bytesPerSector + fat * g.sectorsPerFat
      = d * 4 / g.bytesPerSector + fat' * g.sectorsPerFat := by
    unfold Geometry.fatSector at hsec
    omega
  have hfat : fat = fat' := by
    have hdiv := congrArg (· / g.sectorsPerFat) hsum
    simp only [Nat.add_mul_div_right _ _ hpos, Nat.div_eq_of_lt hlt, Nat.div_eq_of_lt hlt'] at hdiv
    omega
  have hquot : c * 4 / g.bytesPerSector = d * 4 / g.bytesPerSector := by
    rw [hfat] at hsum
    omega
  have hoff : g.offsetInSector c ≠ g.offsetInSector d := by
    intro hoff
    have hc4 := Nat.div_add_mod (c * 4) g.bytesPerSector
    have hd4 := Nat.div_add_mod (d * 4) g.bytesPerSector
    unfold Geometry.offsetInSector at hoff
    rw [hquot, hoff] at hc4
    omega
  obtain ⟨a, ha⟩ := offsetInSector_dvd g c
  obtain ⟨b, hb⟩ := offsetInSector_dvd g d
  omega

/-- Writing the first `n` copies of an entry changes that entry in these copies. -/
lemma writeCopies_getLE (hc : g.Has c) (hd : g.Has d) (disk : ℕ → ℕ → UInt8) (value n : ℕ) :
    getLE (writeCopies g disk c value n (g.fatSector d + fat * g.sectorsPerFat))
        (g.offsetInSector d) 4
      = if d = c ∧ fat < n then value % 256 ^ 4
        else getLE (disk (g.fatSector d + fat * g.sectorsPerFat)) (g.offsetInSector d) 4 := by
  induction n with
  | zero => simp [writeCopies]
  | succ n ih =>
    rw [writeCopies]
    by_cases hsame : d = c ∧ fat = n
    · obtain ⟨rfl, rfl⟩ := hsame
      rw [update_self, getLE_putLE_self, if_pos ⟨rfl, Nat.lt_succ_self fat⟩]
    · have hother : (d = c ∧ fat < n + 1) ↔ (d = c ∧ fat < n) := by omega
      simp only [hother]
      rw [← ih]
      by_cases hsec : g.fatSector d + fat * g.sectorsPerFat
          = g.fatSector c + n * g.sectorsPerFat
      · have hdisj := disjoint_entries hd hc (by omega) hsec
        rw [hsec, update_self, getLE_putLE_of_disjoint hdisj]
      · rw [update_of_ne hsec]

/-! ## What the operations do to the table -/

/-- The driver holds the table `t` of the volume `g`, and memory does not run out. -/
structure Holds (g : Geometry) (t : ℕ → ℕ) (s : Sbi) : Prop where
  geo : s.geo = g
  synced : Synced s t
  ready : Ready s

lemma Holds.kmalloc (h : Holds g t s) : (kmalloc s).1 = true ∧ Holds g t (Fat32.kmalloc s).2 :=
  ⟨h.ready 0, h.geo, ⟨h.synced.copies, h.synced.cache⟩, fun n => h.ready (n + 1)⟩

/-- `fat32_get_cluster` reads the table. -/
lemma Holds.getCluster (h : Holds g t s) (hc : g.Has c) :
    (fat32GetCluster s c).1 = t c ∧ Holds g t (fat32GetCluster s c).2 := by
  obtain ⟨hmem, hnext⟩ := h.kmalloc
  have hlt := hc.lt
  have hge := hc.1
  have hhas : s.geo.Has c := h.geo ▸ hc
  rw [fat32GetCluster, eocMax, if_neg (by omega), if_neg (not_le.2 hhas.2)]
  cases hcache : s.fatCache with
  | some cache => exact ⟨h.synced.cache cache hcache c hhas, h⟩
  | none =>
    simp only [hmem, Bool.true_eq_false, if_false]
    have hcopy := h.synced.copies c hhas 0 (h.geo ▸ g.fats_pos)
    rw [Sbi.entry, Nat.zero_mul, Nat.add_zero] at hcopy
    exact ⟨hcopy, hnext⟩

/-- `fat32_set_cluster` writes the table. -/
lemma Holds.setCluster (h : Holds g t s) (hc : g.Has c) (value : ℕ) :
    Holds g (update t c (clusterMask value)) (fat32SetCluster s c value).2 := by
  have hlt := hc.lt
  have hge := hc.1
  have hgeo := h.geo
  subst hgeo
  rw [fat32SetCluster, eocMax, if_neg (by omega), if_neg (not_le.2 hc.2)]
  simp only [Fat32.kmalloc, h.ready 0, Bool.true_eq_false, if_false]
  refine ⟨rfl, ⟨fun d hd fat hfat => ?_, fun cache hcache d hd => ?_⟩, fun n => h.ready (n + 1)⟩
  · have hfat' : fat < s.geo.numFats := hfat
    simp only [Sbi.entry, writeCopies_getLE hc hd]
    by_cases hdc : d = c
    · have hmask : clusterMask value < 256 ^ 4 :=
        (Nat.mod_lt _ (by decide)).trans (by decide)
      subst hdc
      rw [if_pos ⟨rfl, hfat'⟩, update_self, Nat.mod_eq_of_lt hmask, clusterMask_clusterMask]
    · rw [if_neg (fun hcon => hdc hcon.1), update_of_ne hdc]
      exact h.synced.copies d hd fat hfat'
  · obtain ⟨old, hold, rfl⟩ := Option.map_eq_some_iff.1 hcache
    by_cases hdc : d = c
    · subst hdc
      rw [update_self, update_self, clusterMask_clusterMask]
    · rw [update_of_ne hdc, update_of_ne hdc]
      exact h.synced.cache old hold d hd

/-- `fat32_find_free_cluster` marks a free cluster, or finds that there is none. -/
lemma Holds.findFreeFrom {n : ℕ} (h : Holds g t s) (hc : 2 ≤ c) (hn : c + n = g.totalClusters + 2) :
    ((Fat32.findFreeFrom s c n).1 = 0 ∧ Holds g t (Fat32.findFreeFrom s c n).2) ∨
      ∃ a, g.Has a ∧ t a = 0 ∧ (Fat32.findFreeFrom s c n).1 = a ∧
        Holds g (update t a eocMax) (Fat32.findFreeFrom s c n).2 := by
  induction n generalizing s c with
  | zero => exact .inl ⟨rfl, h⟩
  | succ n ih =>
    have hhas : g.Has c := ⟨hc, by omega⟩
    obtain ⟨hval, hnext⟩ := h.getCluster hhas
    rw [Fat32.findFreeFrom, hval]
    by_cases hfree : t c = clusterFree
    · rw [if_pos hfree]
      refine .inr ⟨c, hhas, hfree, rfl, ?_⟩
      have hset := hnext.setCluster hhas eocMax
      rwa [clusterMask_of_lt (by decide)] at hset
    · rw [if_neg hfree]
      exact ih hnext (by omega) (by omega)

lemma Holds.findFreeCluster (h : Holds g t s) :
    ((fat32FindFreeCluster s).1 = 0 ∧ Holds g t (fat32FindFreeCluster s).2) ∨
      ∃ a, g.Has a ∧ t a = 0 ∧ (fat32FindFreeCluster s).1 = a ∧
        Holds g (update t a eocMax) (fat32FindFreeCluster s).2 := by
  have hgeo := h.geo
  subst hgeo
  exact h.findFreeFrom (le_refl 2) (Nat.add_comm _ _)

/-- `fat32_append_cluster` marks a free cluster and links the last one to it. -/
lemma Holds.appendCluster (h : Holds g t s) (hlast : g.Has c) :
    ((fat32AppendCluster s c).1 = 0 ∧ Holds g t (fat32AppendCluster s c).2) ∨
      ∃ a, g.Has a ∧ t a = 0 ∧ (fat32AppendCluster s c).1 = a ∧
        Holds g (update (update t a eocMax) c a) (fat32AppendCluster s c).2 := by
  unfold fat32AppendCluster
  rcases h.findFreeCluster with ⟨hzero, hnext⟩ | ⟨a, ha, hfree, hval, hnext⟩
  · simp only [hzero, if_true]
    exact .inl ⟨trivial, hnext⟩
  · have hlt := ha.lt
    have hge := ha.1
    have hclt := hlast.lt
    have hcge := hlast.1
    simp only [hval]
    rw [if_neg (by omega), if_pos ⟨hcge, by unfold eocMin; omega⟩]
    refine .inr ⟨a, ha, hfree, rfl, ?_⟩
    have hset := hnext.setCluster hlast a
    rwa [clusterMask_of_lt (by omega)] at hset

end Aurora.Fat32
