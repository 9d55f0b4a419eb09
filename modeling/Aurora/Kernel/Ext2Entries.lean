import Aurora.Kernel.Ext2Dir

/-!
# Tiled directory blocks

A block of a directory is tiled by its entries if each starts where the one before it
ends, the first at the start of the block and the last ending at its end. Then the two
loops over a block are list operations: the lookup finds the first live entry with the
name, and putting a new entry into the slack of another one inserts it into the list.

## Main definitions

* `Tiled`: the block is exactly these entries.
* `findName`: the inode number of the first live entry with a name.
* `Inserted`: a new entry behind a shortened one.
* `scanBlock_of_tiled`, `inserted_of_findSlot`: the loops in these terms.
-/

namespace Aurora.Ext2

variable {e new : DirEntry} {es es' : List DirEntry} {ino : ℕ} {name : List UInt8}

open Lib

/-! ## Entries in memory -/

variable {buf buf' : Bytes} {off blockSize : ℕ}

/-- An entry depends on its header and its name only. -/
lemma dirEntry_congr
    (h : ∀ i < 8 + (dirEntry buf off).name.length, buf' (off + i) = buf (off + i)) :
    dirEntry buf' off = dirEntry buf off := by
  have hlen : (dirEntry buf off).name.length = (buf (off + 6)).toNat := length_slice _ _ _
  have hinode : getLE buf' off 4 = getLE buf off 4 := getLE_congr fun i hi => h i (by omega)
  have hrec : getLE buf' (off + 4) 2 = getLE buf (off + 4) 2 := by
    refine getLE_congr fun i hi => ?_
    rw [Nat.add_assoc]
    exact h (4 + i) (by omega)
  have hname : slice buf' (off + 8) (buf (off + 6)).toNat
      = slice buf (off + 8) (buf (off + 6)).toNat := by
    refine slice_congr fun i hi => ?_
    rw [Nat.add_assoc]
    exact h (8 + i) (by omega)
  simp only [dirEntry, hinode, hrec, h 6 (by omega), h 7 (by omega), hname]

/-- The length of an entry is the only thing that a write to `rec_len` changes. -/
lemma dirEntry_putLE_recLen {v : ℕ} (hv : v < 256 ^ 2) :
    dirEntry (putLE buf (off + 4) 2 v) off = { dirEntry buf off with recLen := v } := by
  have hout : ∀ i, i < off + 4 ∨ off + 6 ≤ i → putLE buf (off + 4) 2 v i = buf i := by
    rintro i (h | h)
    · exact blit_of_lt h
    · exact blit_of_ge (by simpa using h)
  have hname : ∀ n, slice (putLE buf (off + 4) 2 v) (off + 8) n = slice buf (off + 8) n := fun n =>
    slice_congr fun i _ => hout _ (.inr (by omega))
  have hinode : getLE (putLE buf (off + 4) 2 v) off 4 = getLE buf off 4 :=
    getLE_putLE_of_disjoint (.inl le_rfl)
  simp only [dirEntry, hinode, getLE_putLE_self, Nat.mod_eq_of_lt hv, hname,
    hout _ (.inr (le_refl (off + 6))), hout (off + 7) (.inr (by omega))]

lemma length_bytes (e : DirEntry) : e.bytes.length = 8 + e.name.length := by
  simp [DirEntry.bytes]
  omega

/-- An entry that was written is read back. -/
lemma dirEntry_blit_bytes (hino : e.inode < 2 ^ 32) (hrec : e.recLen < 2 ^ 16)
    (hname : e.name.length < 256) : dirEntry (blit buf off e.bytes) off = e := by
  have hread := slice_blit buf off e.bytes
  have hget : ∀ i (h : i < e.bytes.length), blit buf off e.bytes (off + i) = e.bytes[i] :=
    (slice_eq_iff rfl).1 hread
  -- the fields are sublists of the bytes of the entry
  have hfield : ∀ o n, o + n ≤ e.bytes.length →
      slice (blit buf off e.bytes) (off + o) n = (e.bytes.drop o).take n := by
    intro o n _
    rw [← hread, slice_drop, slice_take, hread, Nat.min_eq_left (by omega)]
  have hlen := length_bytes e
  have h0 : getLE (blit buf off e.bytes) off 4 = e.inode := by
    have hf := hfield 0 4 (by omega)
    rw [Nat.add_zero] at hf
    rw [getLE, hf]
    exact field_toLE_append (by simpa using hino)
  have h4 : getLE (blit buf off e.bytes) (off + 4) 2 = e.recLen := by
    rw [getLE, hfield 4 2 (by omega)]
    have hlen4 : (toLE 4 e.inode).length = 4 := length_toLE 4 _
    exact field_append hlen4 (by simpa using hrec)
  have h6 : blit buf off e.bytes (off + 6) = UInt8.ofNat e.name.length := by
    rw [hget 6 (by omega)]
    rfl
  have h7 : blit buf off e.bytes (off + 7) = e.fileType := by
    rw [hget 7 (by omega)]
    rfl
  have hnl : (UInt8.ofNat e.name.length).toNat = e.name.length := by
    rw [UInt8.toNat_ofNat', Nat.mod_eq_of_lt (by simpa using hname)]
  have h8 : slice (blit buf off e.bytes) (off + 8) e.name.length = e.name := by
    rw [hfield 8 _ (by omega)]
    exact List.take_of_length_le (le_refl _)
  simp only [dirEntry, h0, h4, h6, h7, hnl, h8]

/-! ## Tilings -/

/-- From `off` to its end the block is exactly these entries. -/
def Tiled (blockSize : ℕ) (buf : Bytes) : ℕ → List DirEntry → Prop
  | off, [] => off = blockSize
  | off, e :: es => dirEntry buf off = e ∧ e.recLen % 4 = 0 ∧ 8 + e.name.length ≤ e.recLen ∧
      Tiled blockSize buf (off + e.recLen) es

lemma Tiled.le (h : Tiled blockSize buf off es) : off ≤ blockSize := by
  induction es generalizing off with
  | nil => exact h.le
  | cons e es ih => exact (Nat.le_add_right _ _).trans (ih h.2.2.2)

lemma Tiled.length_le (h : Tiled blockSize buf off es) : es.length ≤ blockSize - off := by
  induction es generalizing off with
  | nil => exact Nat.zero_le _
  | cons e es ih =>
    have htail := ih h.2.2.2
    have hle := h.2.2.2.le
    have hpos := h.2.2.1
    rw [List.length_cons]
    omega

/-- What comes before a tiled part does not matter. -/
lemma Tiled.congr (h : Tiled blockSize buf off es)
    (heq : ∀ i, off ≤ i → buf' i = buf i) : Tiled blockSize buf' off es := by
  induction es generalizing off with
  | nil => exact h
  | cons e es ih =>
    obtain ⟨rfl, hmod, hlen, htail⟩ := h
    exact ⟨dirEntry_congr fun i _ => heq _ (Nat.le_add_right _ _), hmod, hlen,
      ih htail fun i hi => heq i (by omega)⟩

/-! ## Lookup -/

/-- The inode number of the first live entry with the name. -/
def findName (name : List UInt8) : List DirEntry → Option ℕ
  | [] => none
  | e :: es => if e.inode ≠ 0 ∧ e.name = name then some e.inode else findName name es

lemma findName_append (name : List UInt8) (es es' : List DirEntry) :
    findName name (es ++ es') = (findName name es).or (findName name es') := by
  induction es with
  | nil => rfl
  | cons e es ih =>
    rw [List.cons_append, findName, findName, ih]
    split
    · rfl
    · rfl

/-- The inner loop of the lookup finds the first live entry with the name, or comes to
the end of the block. -/
lemma scanBlock_of_tiled (name : List UInt8) {dirSize fuel o : ℕ}
    (h : Tiled blockSize buf o es) (hfuel : es.length < fuel)
    (hin : off + (blockSize - o) ≤ dirSize) :
    scanBlock blockSize dirSize buf name fuel off o
      = match findName name es with
        | some ino => .found ino
        | none => .next (off + (blockSize - o)) := by
  induction es generalizing off o fuel with
  | nil =>
    have ho : o = blockSize := h
    obtain ⟨fuel, rfl⟩ := Nat.exists_eq_add_of_lt hfuel
    rw [scanBlock, if_neg (by omega), findName, ho, Nat.sub_self, Nat.add_zero]
  | cons e es ih =>
    obtain ⟨hentry, -, hlen, htail⟩ := h
    obtain ⟨fuel, rfl⟩ : ∃ n, fuel = n + 1 := ⟨fuel - 1, by omega⟩
    have hle := htail.le
    have hend : off + e.recLen + (blockSize - (o + e.recLen)) = off + (blockSize - o) := by omega
    have hfuel' : es.length < fuel := by simpa using hfuel
    have hrest := ih htail hfuel' (hend.trans_le hin)
    rw [hend] at hrest
    rw [scanBlock, if_pos (by omega), if_neg (by omega)]
    simp only [hentry, if_neg (by omega : e.recLen ≠ 0)]
    rw [findName]
    by_cases hdead : e.inode = 0
    · rw [if_pos hdead, if_neg (fun hl => hl.1 hdead), hrest]
    · by_cases hname : e.name = name
      · rw [if_neg hdead, if_pos hname, if_pos ⟨hdead, hname⟩]
      · rw [if_neg hdead, if_neg hname, if_neg (fun hl => hname hl.2), hrest]

/-! ## Insertion -/

/-- One entry has been cut to the length of its name, and a new one follows it. -/
def Inserted (new : DirEntry) (es es' : List DirEntry) : Prop :=
  ∃ pre e post, es = pre ++ e :: post ∧
    es' = pre ++ { e with recLen := recLenForName e.name.length } :: new :: post

lemma Inserted.cons (h : Inserted new es es')
    (e : DirEntry) : Inserted new (e :: es) (e :: es') := by
  obtain ⟨pre, e', post, rfl, rfl⟩ := h
  exact ⟨e :: pre, e', post, rfl, rfl⟩

/-- Another name is found where it was. -/
lemma Inserted.findName_of_ne (h : Inserted new es es') (hne : name ≠ new.name) :
    findName name es' = findName name es := by
  obtain ⟨_, e, _, rfl, rfl⟩ := h
  rw [findName_append, findName_append]
  congr 1
  rw [findName, findName, findName, if_neg (fun hl : new.inode ≠ 0 ∧ new.name = name =>
    hne hl.2.symm)]

/-- The new entry is found under its name if there was none. -/
lemma Inserted.findName_self
    (h : Inserted new es es') (hino : new.inode ≠ 0) (habsent : findName new.name es = none) :
    findName new.name es' = some new.inode := by
  obtain ⟨_, e, _, rfl, rfl⟩ := h
  rw [findName_append, Option.or_eq_none_iff, findName] at habsent
  obtain ⟨hpre, hrest⟩ := habsent
  split at hrest
  next => cases hrest
  next hother =>
    rw [findName_append, hpre, Option.none_or, findName, if_neg hother, findName,
      if_pos ⟨hino, rfl⟩]

lemma recLenForName_mod (n : ℕ) : recLenForName n % 4 = 0 := by
  unfold recLenForName
  omega

lemma le_recLenForName (n : ℕ) : 8 + n ≤ recLenForName n := by
  unfold recLenForName
  omega

/-- The entry that has been split tiles its old place together with the new one. -/
lemma tiled_splitEntry {fileType : UInt8}
    (h : Tiled blockSize buf off (e :: es)) (hino : ino < 2 ^ 32)
    (hname : name.length < 256)
    (hroom : recLenForName e.name.length + recLenForName name.length ≤ e.recLen) :
    Tiled blockSize (splitEntry buf off ino fileType name) off
      ({ e with recLen := recLenForName e.name.length } ::
        ⟨ino, e.recLen - recLenForName e.name.length, fileType, name⟩ :: es) := by
  obtain ⟨rfl, hmod, -, htail⟩ := h
  set e := dirEntry buf off
  set new : DirEntry := ⟨ino, e.recLen - recLenForName e.name.length, fileType, name⟩
  have hrec : e.recLen < 256 ^ 2 := getLE_lt _ _ _
  have hmin := le_recLenForName e.name.length
  have hmod' := recLenForName_mod e.name.length
  have hnewMin := le_recLenForName name.length
  have hnewLen : new.recLen = e.recLen - recLenForName e.name.length := rfl
  have hbytes := length_bytes new
  have hnewName : new.name.length = name.length := rfl
  have hsplit : splitEntry buf off ino fileType name
      = blit (putLE buf (off + 4) 2 (recLenForName e.name.length))
          (off + recLenForName e.name.length) new.bytes := rfl
  have hput : dirEntry (putLE buf (off + 4) 2 (recLenForName e.name.length)) off
      = { e with recLen := recLenForName e.name.length } := dirEntry_putLE_recLen (by omega)
  rw [hsplit]
  refine ⟨?_, hmod', hmin, ?_, ?_, ?_, ?_⟩
  · -- the new entry is behind the name of the old one
    rw [← hput]
    refine dirEntry_congr fun i hi => blit_of_lt ?_
    rw [hput] at hi
    have hi' : i < 8 + e.name.length := hi
    omega
  · exact dirEntry_blit_bytes hino (by omega) hname
  · omega
  · omega
  · have hend : off + recLenForName e.name.length + new.recLen = off + e.recLen := by omega
    rw [hend]
    refine htail.congr fun i hi => ?_
    rw [blit_of_ge (by omega)]
    exact blit_of_ge (by rw [length_toLE]; omega)

lemma splitEntry_of_lt {i : ℕ} {fileType : UInt8} (h : i < off) :
    splitEntry buf off ino fileType name i = buf i := by
  rw [splitEntry, putLE, blit_of_lt (by omega), blit_of_lt (by omega)]

/-- **Putting the new entry into the slack that was found inserts it into the list of
entries**, and the block stays tiled. -/
lemma inserted_of_findSlot {fuel o slot : ℕ} (fileType : UInt8)
    (h : Tiled blockSize buf o es) (hino : ino < 2 ^ 32)
    (hname : name.length < 256)
    (hslot : findSlot blockSize buf (recLenForName name.length) fuel o = some slot) :
    o ≤ slot ∧ ∃ new es', new.inode = ino ∧ new.name = name ∧ Inserted new es es' ∧
      Tiled blockSize (splitEntry buf slot ino fileType name) o es' := by
  induction fuel generalizing o es with
  | zero => cases hslot
  | succ fuel ih =>
    rw [findSlot] at hslot
    split at hslot
    next hin =>
      cases es with
      | nil => exact absurd (show o = blockSize from h) hin.ne
      | cons e es =>
        obtain ⟨hentry, hmod, hlen, htail⟩ := id h
        simp only [hentry] at hslot
        split at hslot
        next => cases hslot
        next =>
          split at hslot
          next hroom =>
            cases hslot
            exact ⟨le_rfl, _, _, rfl, rfl, ⟨[], e, es, rfl, rfl⟩,
              tiled_splitEntry h hino hname hroom⟩
          next =>
            obtain ⟨hle, new, es', hi, hn, hins, htiled⟩ := ih htail hslot
            refine ⟨by omega, new, e :: es', hi, hn, hins.cons e, ?_, hmod, hlen, htiled⟩
            rw [← hentry]
            refine dirEntry_congr fun i hi' => splitEntry_of_lt ?_
            rw [hentry] at hi'
            omega
    next => cases hslot

/-- A block with one entry in it. -/
lemma tiled_single (hino : e.inode < 2 ^ 32) (hname : e.name.length < 256)
    (hrec : e.recLen = blockSize) (hsize : 8 + e.name.length ≤ blockSize)
    (hmod : blockSize % 4 = 0) (hlt : blockSize < 2 ^ 16) (buf : Bytes) :
    Tiled blockSize (blit buf 0 e.bytes) 0 [e] := by
  refine ⟨dirEntry_blit_bytes hino (by omega) hname, by omega, by omega, ?_⟩
  show 0 + e.recLen = blockSize
  omega

end Aurora.Ext2
