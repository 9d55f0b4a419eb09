import Aurora.Kernel.Task
import Aurora.Lib.Ring
import Mathlib.Data.Nat.Bitwise
import Mathlib.Tactic.IntervalCases

/-!
# Fragmentation and reassembly of IPv4 packets

The model of `ipv4_fragment_and_send` and `ipv4_reassemble` in `net.c`. The sender
puts its more-fragments flag into bit 5 of the offset field, where it belongs to bit
13, and the receiver keeps bit 13 in an 8-bit variable, where it is always 0. So the
first of several fragments arrives with offset 256, and each fragment passes for the
last one.

A packet makes the round trip exactly if it is sent as one fragment with offset 0 and
is not empty.

## Main definitions

* `Ipv4Hdr`, `Ipv4Packet`: a header as it lies in memory, and the bytes behind it.
* `ipv4FragmentAndSend`: the packets handed to `ipv4_send_raw`.
* `FragEntry`, `ipv4Reassemble`: the queues and the receiving side.
* `RoundTrip`: every delivery of the fragments gives the payload back.
* `roundTrip_iff`: which packets make the round trip.
-/

namespace Aurora.Ipv4

variable {fragId id : UInt16} {frags : List Ipv4Packet} {mtu : ℕ} {p : Ipv4Packet}

open Lib List Option

/-! ## Headers -/

def ntohs (n : UInt16) : UInt16 := ((n &&& 0xFF) <<< 8) ||| ((n &&& 0xFF00) >>> 8)

def htons (n : UInt16) : UInt16 := ntohs n

/-- `struct ipv4_hdr`. The 16-bit fields hold what lies in memory, in network order. -/
structure Ipv4Hdr where
  versionIhl : UInt8
  dscpEcn : UInt8
  totalLen : UInt16
  id : UInt16
  flagsFrag : UInt16
  ttl : UInt8
  protocol : UInt8
  checksum : UInt16
  srcIp : Fin 4 → UInt8
  dstIp : Fin 4 → UInt8

/-- A header of 20 bytes and the bytes behind it. -/
structure Ipv4Packet where
  hdr : Ipv4Hdr
  payload : List UInt8

/-- `hdr_len`. -/
def hdrLen : ℕ := 20

/-- The length of the packet in memory, `total_len` of the sender and `len` of the
receiver. -/
def Ipv4Packet.len (p : Ipv4Packet) : ℕ := hdrLen + p.payload.length

/-- The bytes of an address are numbered from 0 on. -/
instance neZero_four : NeZero 4 := ⟨by decide⟩

/-- The ten 16-bit words that `ip_checksum` reads. -/
def Ipv4Hdr.words (h : Ipv4Hdr) : List ℕ :=
  [h.versionIhl.toNat + 256 * h.dscpEcn.toNat, h.totalLen.toNat, h.id.toNat, h.flagsFrag.toNat,
    h.ttl.toNat + 256 * h.protocol.toNat, h.checksum.toNat,
    (h.srcIp 0).toNat + 256 * (h.srcIp 1).toNat, (h.srcIp 2).toNat + 256 * (h.srcIp 3).toNat,
    (h.dstIp 0).toNat + 256 * (h.dstIp 1).toNat, (h.dstIp 2).toNat + 256 * (h.dstIp 3).toNat]

/-- `while (sum >> 16) sum = (sum & 0xFFFF) + (sum >> 16)`; two rounds are enough for a
32-bit sum. -/
def foldCarry : ℕ → ℕ → ℕ
  | 0, sum => sum
  | rounds + 1, sum =>
    if sum / 65536 = 0 then sum else foldCarry rounds (sum % 65536 + sum / 65536)

/-- `checksum_calc` of a header. -/
def ipChecksum (h : Ipv4Hdr) : UInt16 := ~~~ UInt16.ofNat (foldCarry 2 h.words.sum)

/-! ## Sending -/

/-- `max_data`: `(uint16_t)((mtu - hdr_len) & ~7)`, where a small MTU wraps around. -/
def maxData (mtu : ℕ) : ℕ := ((mtu + 65536 - hdrLen) / 8 * 8) % 65536

/-- `frag_len` of the fragment at `offset`. -/
def fragLen (mtu dataLen offset : ℕ) : ℕ :=
  if dataLen - offset > maxData mtu then maxData mtu else dataLen - offset

/-- The value of the field `flags_frag` in host order: `(offset / 8) | more`. -/
def flagsAt (mtu dataLen offset : ℕ) : UInt16 :=
  UInt16.ofNat (offset / 8) ||| if offset + fragLen mtu dataLen offset < dataLen then 0x20 else 0

/-- The fragment at `offset`. -/
def fragmentAt (mtu : ℕ) (id : UInt16) (p : Ipv4Packet) (offset : ℕ) : Ipv4Packet :=
  let len := fragLen mtu p.payload.length offset
  let hdr := { p.hdr with
    totalLen := htons (UInt16.ofNat (hdrLen + len))
    flagsFrag := htons (flagsAt mtu p.payload.length offset)
    id := htons id
    checksum := 0 }
  { hdr := { hdr with checksum := ipChecksum hdr }
    payload := (p.payload.drop offset).take len }

/-- The loop over the fragments; `none` while it has not come to its end. -/
def fragLoop (mtu : ℕ) (id : UInt16) (p : Ipv4Packet) : ℕ → ℕ → Option (List Ipv4Packet)
  | 0, _ => none
  | fuel + 1, offset =>
    if offset < p.payload.length then
      (fragLoop mtu id p fuel (offset + fragLen mtu p.payload.length offset)).map
        (fragmentAt mtu id p offset :: ·)
    else some []

/-- `ipv4_fragment_and_send`: the packets it hands to `ipv4_send_raw`. `none`: the
loop has no end. A loop that ends takes at least one byte in each round. -/
def ipv4FragmentAndSend (mtu : ℕ) (fragId : UInt16) (p : Ipv4Packet) :
    Option (List Ipv4Packet) :=
  if p.len ≤ mtu % 65536 then some [p]
  else fragLoop mtu fragId p (p.payload.length + 1) 0

/-! ## Receiving -/

/-- `struct ipv4_frag_entry`, less its bitmap, which nothing reads, and its time stamp. -/
structure FragEntry where
  srcIp : UInt32
  dstIp : UInt32
  id : UInt16
  protocol : UInt8
  data : ℕ → UInt8
  totalLen : ℕ
  received : ℕ
  inUse : Bool

/-- `IPV4_MAX_FRAG_QUEUES`. -/
def maxFragQueues : ℕ := 16

/-- `g_frag_queues`. -/
abbrev FragQueues := ℕ → FragEntry

/-- An address as a number, for comparison. -/
def ipWord (ip : Fin 4 → UInt8) : UInt32 :=
  ((ip 0).toUInt32 <<< 24) ||| ((ip 1).toUInt32 <<< 16) ||| ((ip 2).toUInt32 <<< 8) |||
    (ip 3).toUInt32

/-- The entry collects the fragments of this header's datagram. -/
def FragEntry.matches (e : FragEntry) (h : Ipv4Hdr) : Bool :=
  e.inUse && e.srcIp == ipWord h.srcIp && e.dstIp == ipWord h.dstIp && e.id == ntohs h.id &&
    e.protocol == h.protocol

/-- A new entry, with `fresh` in the buffer that `kmalloc` returns. -/
def newEntry (fresh : ℕ → UInt8) (h : Ipv4Hdr) : FragEntry :=
  ⟨ipWord h.srcIp, ipWord h.dstIp, ntohs h.id, h.protocol, fresh, 0, 0, true⟩

/-- The entry for a header: the first that matches, else a new one in the first free
place. `none`: all places are taken. -/
def findQueue (fresh : ℕ → UInt8) (q : FragQueues) (h : Ipv4Hdr) : Option (ℕ × FragEntry) :=
  match (List.range maxFragQueues).find? fun i => (q i).matches h with
  | some i => some (i, q i)
  | none =>
    match (List.range maxFragQueues).find? fun i => !(q i).inUse with
    | some i => some (i, newEntry fresh h)
    | none => none

/-- `offset` as the receiver computes it. -/
def rxOffset (h : Ipv4Hdr) : ℕ := ((ntohs h.flagsFrag) &&& 0x1FFF).toNat * 8

/-- `mf`: bit 13, cut to 8 bits. -/
def rxMf (h : Ipv4Hdr) : UInt8 := ((ntohs h.flagsFrag) &&& 0x2000).toUInt8

/-- What `ipv4_reassemble` does with a fragment and its entry: the value it returns,
the datagram in `*out`, and the entry afterwards. -/
def acceptFragment (e : FragEntry) (p : Ipv4Packet) : (ℤ × Option (List UInt8)) × FragEntry :=
  let offset := rxOffset p.hdr
  let dataLen := p.payload.length
  if offset + dataLen > 65536 then ((-1, none), { e with inUse := false })
  else
    let data := blit e.data offset p.payload
    let received := (e.received + dataLen) % 65536
    let totalLen := if rxMf p.hdr = 0 then (offset + dataLen) % 65536 else e.totalLen
    let e' := { e with data := data, received := received, totalLen := totalLen }
    if totalLen > 0 ∧ received ≥ totalLen then
      ((0, some (slice data 0 totalLen)), { e' with inUse := false })
    else ((-Errno.EAGAIN.code, none), e')

/-- `ipv4_reassemble`, with `fresh` in the buffer that `kmalloc` returns. -/
def ipv4Reassemble (fresh : ℕ → UInt8) (q : FragQueues) (p : Ipv4Packet) :
    (ℤ × Option (List UInt8)) × FragQueues :=
  match findQueue fresh q p.hdr with
  | none => ((-Errno.ENOMEM.code, none), q)
  | some (i, e) => ((acceptFragment e p).1, Function.update q i (acceptFragment e p).2)

/-- The queues after a sequence of packets. -/
def deliver (fresh : ℕ → UInt8) (q : FragQueues) (ps : List Ipv4Packet) : FragQueues :=
  ps.foldl (fun q p => (ipv4Reassemble fresh q p).2) q

/-! ## The round trip -/

/-- The queues have a free place, and none collects this datagram already. -/
def Roomy (q : FragQueues) (frags : List Ipv4Packet) : Prop :=
  (∃ i < maxFragQueues, (q i).inUse = false) ∧
    ∀ i < maxFragQueues, ∀ f ∈ frags, (q i).matches f.hdr = false

/-- The packet is sent, and whichever fragments `ds` have come so far, with any order
and repetition and one of them still missing, the next fragment `d` gives `-EAGAIN` or,
if it was the last one missing, the payload. -/
def RoundTrip (mtu : ℕ) (fragId : UInt16) (p : Ipv4Packet) : Prop :=
  ∃ frags, ipv4FragmentAndSend mtu fragId p = some frags ∧ frags ≠ [] ∧
    ∀ fresh q, Roomy q frags → ∀ (ds : List (Fin frags.length)) (d : Fin frags.length),
      (∃ i, i ∉ ds) →
      (ipv4Reassemble fresh (deliver fresh q (ds.map frags.get)) (frags.get d)).1
        = if ∀ i, i ∈ d :: ds then (0, some p.payload) else (-Errno.EAGAIN.code, none)

/-- The packet is not empty and leaves as one fragment: unchanged and with offset 0, or
from the loop. -/
def OneFragment (mtu : ℕ) (p : Ipv4Packet) : Prop :=
  hdrLen < p.len ∧
    ((p.len ≤ mtu % 65536 ∧ rxOffset p.hdr = 0) ∨
      (mtu % 65536 < p.len ∧ p.payload.length ≤ maxData mtu))

/-! ## Byte order and flags -/

lemma ntohs_htons (n : UInt16) : ntohs (htons n) = n := by
  apply UInt16.toBitVec_inj.1
  apply BitVec.eq_of_getLsbD_eq
  intro i _
  simp only [htons, ntohs, UInt16.toBitVec_or, UInt16.toBitVec_and, UInt16.toBitVec_shiftLeft,
    UInt16.toBitVec_shiftRight]
  interval_cases i <;> simp

/-- The receiver never sees the more-fragments flag. -/
lemma rxMf_eq_zero (h : Ipv4Hdr) : rxMf h = 0 := by
  apply UInt8.toBitVec_inj.1
  apply BitVec.eq_of_getLsbD_eq
  intro i _
  simp only [rxMf, UInt16.toBitVec_toUInt8, UInt16.toBitVec_and]
  interval_cases i <;> simp

lemma rxOffset_fragmentAt (mtu : ℕ) (id : UInt16) (p : Ipv4Packet) (offset : ℕ) :
    rxOffset (fragmentAt mtu id p offset).hdr
      = ((flagsAt mtu p.payload.length offset) &&& 0x1FFF).toNat * 8 := by
  simp only [rxOffset, fragmentAt, ntohs_htons]

/-- A fragment that is not alone arrives behind the start of the datagram. -/
lemma rxOffset_fragmentAt_pos (id : UInt16) {offset : ℕ}
    (hlen : p.payload.length < 65536) (hoff : offset < p.payload.length) (hdvd : 8 ∣ offset)
    (hmany : offset = 0 → maxData mtu < p.payload.length) :
    0 < rxOffset (fragmentAt mtu id p offset).hdr := by
  rw [rxOffset_fragmentAt]
  suffices h : flagsAt mtu p.payload.length offset &&& 0x1FFF ≠ 0 by
    have hnat : (flagsAt mtu p.payload.length offset &&& 0x1FFF).toNat ≠ 0 := fun h0 =>
      h (UInt16.toNat_inj.1 h0)
    omega
  unfold flagsAt
  split
  · -- the flag itself is read as an offset
    intro h
    have hbit := congrArg (fun n : UInt16 => n.toBitVec.getLsbD 5) h
    simp at hbit
  · next hlast =>
    -- the last fragment of several has a true offset
    have hpos : offset ≠ 0 := by
      intro h0
      have := hmany h0
      subst h0
      simp only [fragLen] at hlast
      split at hlast <;> omega
    obtain ⟨k, rfl⟩ := hdvd
    intro h
    have hk : 8 * k / 8 = k := by omega
    rw [hk] at h
    have hnat := congrArg UInt16.toNat h
    simp only [UInt16.or_zero, UInt16.toNat_and, UInt16.toNat_ofNat'] at hnat
    have hmask : UInt16.toNat 0x1FFF = 2 ^ 13 - 1 := rfl
    rw [hmask, Nat.and_two_pow_sub_one_eq_mod] at hnat
    have hz : UInt16.toNat 0 = 0 := rfl
    rw [hz] at hnat
    omega

/-! ## The loop of the sender -/

lemma maxData_dvd (mtu : ℕ) : 8 ∣ maxData mtu := by
  unfold maxData
  omega

/-- Of several fragments none arrives at the start of the datagram. -/
lemma rxOffset_of_mem_fragLoop
    (hlen : p.payload.length < 65536) (hmany : maxData mtu < p.payload.length) {fuel offset : ℕ}
    (hdvd : 8 ∣ offset)
    (h : fragLoop mtu id p fuel offset = some frags) {f : Ipv4Packet} (hf : f ∈ frags) :
    0 < rxOffset f.hdr := by
  induction fuel generalizing offset frags with
  | zero => cases h
  | succ fuel ih =>
    rw [fragLoop] at h
    split at h
    · next hoff =>
      obtain ⟨_, hrest, rfl⟩ := map_eq_some_iff.1 h
      rcases mem_cons.1 hf with rfl | hf
      · exact rxOffset_fragmentAt_pos id hlen hoff hdvd fun _ => hmany
      · -- behind a short fragment the loop is at its end
        by_cases hfull : p.payload.length - offset > maxData mtu
        · have hnext : fragLen mtu p.payload.length offset = maxData mtu := if_pos hfull
          rw [hnext] at hrest
          exact ih (Nat.dvd_add hdvd (maxData_dvd mtu)) hrest hf
        · have hnext : offset + fragLen mtu p.payload.length offset = p.payload.length := by
            rw [fragLen, if_neg hfull]
            omega
          rw [hnext] at hrest
          cases fuel with
          | zero => cases hrest
          | succ fuel =>
            rw [fragLoop, if_neg (lt_irrefl _)] at hrest
            cases hrest
            cases hf
    · cases h
      cases hf

lemma fragLen_zero {dataLen : ℕ} (hmax : dataLen ≤ maxData mtu) :
    fragLen mtu dataLen 0 = dataLen := by
  rw [fragLen, if_neg (by omega), Nat.sub_zero]

/-- A payload that fits leaves as one fragment with offset 0. -/
lemma fragLoop_eq_singleton (id : UInt16)
    (hpos : 0 < p.payload.length) (hmax : p.payload.length ≤ maxData mtu) :
    fragLoop mtu id p (p.payload.length + 1) 0 = some [fragmentAt mtu id p 0] := by
  obtain ⟨k, hk⟩ : ∃ k, p.payload.length = k + 1 := ⟨p.payload.length - 1, by omega⟩
  rw [fragLoop, if_pos hpos, fragLen_zero hmax, Nat.zero_add, hk, fragLoop, ← hk,
    if_neg (lt_irrefl _)]
  rfl

/-- That fragment carries the whole payload, -/
lemma payload_fragmentAt_zero
    (hmax : p.payload.length ≤ maxData mtu) : (fragmentAt mtu id p 0).payload = p.payload := by
  simp [fragmentAt, fragLen_zero hmax]

/-- and the receiver finds offset 0 in it. -/
lemma rxOffset_fragmentAt_zero
    (hmax : p.payload.length ≤ maxData mtu) : rxOffset (fragmentAt mtu id p 0).hdr = 0 := by
  rw [rxOffset_fragmentAt, flagsAt, fragLen_zero hmax, if_neg (by omega)]
  rfl

/-- With no room for data in a packet the loop has no end. -/
lemma fragLoop_stuck (id : UInt16) (hmax : maxData mtu = 0) (hpay : p.payload ≠ []) (fuel : ℕ) :
    fragLoop mtu id p fuel 0 = none := by
  induction fuel with
  | zero => rfl
  | succ fuel ih => simp [fragLoop, fragLen, hmax, length_pos_of_ne_nil hpay, ih]

/-- Otherwise it cuts the rest of the payload into pieces. -/
lemma fragLoop_pieces (id : UInt16) (hpos : 0 < maxData mtu) (fuel offset : ℕ)
    (hfuel : p.payload.length - offset < fuel) :
    ∃ frags, fragLoop mtu id p fuel offset = some frags ∧
      frags.flatMap (·.payload) = p.payload.drop offset ∧
      ∀ f ∈ frags, f.payload.length ≤ maxData mtu := by
  induction fuel generalizing offset with
  | zero => omega
  | succ fuel ih =>
    rw [fragLoop]
    split
    · set n := fragLen mtu p.payload.length offset with hn
      have hlen : 0 < n ∧ n ≤ maxData mtu := by
        unfold fragLen at hn
        split at hn <;> omega
      obtain ⟨frags, hrest, hpieces, hsmall⟩ := ih (offset + n) (by omega)
      refine ⟨fragmentAt mtu id p offset :: frags, by simp [hrest], ?_, ?_⟩
      · simp [fragmentAt, ← hn, hpieces, ← drop_drop]
      · simpa [fragmentAt, ← hn, hlen.2] using hsmall
    · exact ⟨[], rfl, by simp; omega, by simp⟩

/-- **The fragments are the payload in pieces** of at most `max_data` bytes. The sender does
not return exactly if a payload is too long for one packet and no byte of it fits. -/
theorem fragments_pieces (mtu : ℕ) (fragId : UInt16) (p : Ipv4Packet) :
    (ipv4FragmentAndSend mtu fragId p = none ↔
      mtu % 65536 < p.len ∧ maxData mtu = 0 ∧ p.payload ≠ []) ∧
    ∀ frags, ipv4FragmentAndSend mtu fragId p = some frags →
      frags.flatMap (·.payload) = p.payload ∧
        (p.len ≤ mtu % 65536 ∨ ∀ f ∈ frags, f.payload.length ≤ maxData mtu) := by
  unfold ipv4FragmentAndSend
  split
  · next hfits => simp [hfits]
  by_cases hmax : maxData mtu = 0
  · by_cases hpay : p.payload = []
    · simp [hpay, fragLoop]
    · simp_all [fragLoop_stuck]
  · obtain ⟨_, hloop, hpieces, hsmall⟩ := fragLoop_pieces (p := p) fragId
      (Nat.pos_of_ne_zero hmax) (p.payload.length + 1) 0 (by omega)
    simp_all

/-! ## The receiver -/

variable {fresh : ℕ → UInt8} {q : FragQueues} {p : Ipv4Packet}

/-- Every entry in use holds `v` in its first byte. -/
def FirstByte (v : UInt8) (q : FragQueues) : Prop :=
  ∀ i < maxFragQueues, (q i).inUse = true → (q i).data 0 = v

lemma findQueue_firstByte (h : FirstByte (fresh 0) q) {hdr : Ipv4Hdr} {i : ℕ} {e : FragEntry}
    (hfind : findQueue fresh q hdr = some (i, e)) : e.data 0 = fresh 0 := by
  unfold findQueue at hfind
  split at hfind
  · next j hj =>
    cases hfind
    have hmem := mem_range.1 (mem_of_find?_eq_some hj)
    have hmatch := find?_some hj
    simp only [FragEntry.matches, Bool.and_eq_true] at hmatch
    exact h i hmem hmatch.1.1.1.1
  · split at hfind
    · cases hfind
      rfl
    · cases hfind

/-- A fragment behind the start of the datagram leaves the first byte alone, and a
datagram that it completes starts with that byte. -/
lemma acceptFragment_firstByte {e : FragEntry} {v : UInt8} (he : e.data 0 = v)
    (hoff : 0 < rxOffset p.hdr) :
    (acceptFragment e p).2.data 0 = v ∧
      ∀ out, (acceptFragment e p).1.2 = some out → out.head? = some v := by
  have hdata : blit e.data (rxOffset p.hdr) p.payload 0 = v := by rw [blit_of_lt hoff, he]
  simp only [acceptFragment, rxMf_eq_zero, if_true]
  split
  · exact ⟨he, fun out hout => by cases hout⟩
  split
  · next hdone =>
    refine ⟨hdata, fun out hout => ?_⟩
    cases hout
    obtain ⟨n, hn⟩ := Nat.exists_eq_succ_of_ne_zero (Nat.pos_iff_ne_zero.1 hdone.1)
    rw [hn, slice, range_succ_eq_map]
    simpa using hdata
  · exact ⟨hdata, fun out hout => by cases hout⟩

lemma ipv4Reassemble_firstByte (h : FirstByte (fresh 0) q) (hoff : 0 < rxOffset p.hdr) :
    FirstByte (fresh 0) (ipv4Reassemble fresh q p).2 ∧
      ∀ out, (ipv4Reassemble fresh q p).1.2 = some out → out.head? = some (fresh 0) := by
  unfold ipv4Reassemble
  split
  · exact ⟨h, fun out hout => by cases hout⟩
  · next i e hfind =>
    obtain ⟨hdata, hout⟩ := acceptFragment_firstByte (findQueue_firstByte h hfind) hoff
    refine ⟨fun j hj huse => ?_, hout⟩
    by_cases hji : j = i
    · subst hji
      simpa using hdata
    · simp only [Function.update_of_ne hji] at huse ⊢
      exact h j hj huse

lemma deliver_firstByte (fresh : ℕ → UInt8) {ps : List Ipv4Packet} (h : FirstByte (fresh 0) q)
    (hps : ∀ p ∈ ps, 0 < rxOffset p.hdr) : FirstByte (fresh 0) (deliver fresh q ps) := by
  induction ps generalizing q with
  | nil => exact h
  | cons p ps ih =>
    have hp := (ipv4Reassemble_firstByte h (hps p mem_cons_self)).1
    exact ih hp fun p' hp' => hps p' (mem_cons_of_mem p hp')

/-- A fragment for an entry that is not there yet starts a new one. -/
lemma findQueue_roomy (fresh : ℕ → UInt8) (h : Roomy q frags) (hp : p ∈ frags) :
    ∃ i, findQueue fresh q p.hdr = some (i, newEntry fresh p.hdr) := by
  obtain ⟨⟨i, hi, hfree⟩, hnone⟩ := h
  have hmatch : (List.range maxFragQueues).find? (fun i => (q i).matches p.hdr) = none := by
    rw [find?_eq_none]
    intro j hj
    rw [hnone j (mem_range.1 hj) p hp]
    exact Bool.false_ne_true
  obtain ⟨j, hj⟩ : ∃ j, (List.range maxFragQueues).find? (fun i => !(q i).inUse) = some j := by
    rw [← isSome_iff_exists, find?_isSome]
    exact ⟨i, mem_range.2 hi, by simp [hfree]⟩
  exact ⟨j, by rw [findQueue, hmatch, hj]⟩

/-- What the first fragment of a datagram gives: all its bytes, if it starts at offset
0 and is not empty. -/
lemma acceptFragment_newEntry (hlen : p.payload.length < 65536) :
    (acceptFragment (newEntry fresh p.hdr) p).1 = (0, some p.payload) ↔
      rxOffset p.hdr = 0 ∧ 0 < p.payload.length := by
  have hreceived : (0 + p.payload.length) % 65536 = p.payload.length := by
    simp [Nat.mod_eq_of_lt hlen]
  simp only [acceptFragment, newEntry, rxMf_eq_zero, if_true, hreceived]
  constructor
  · intro h
    split at h
    · cases h
    split at h
    · next hle hdone =>
      have hout := some.inj (Prod.ext_iff.1 h).2
      have hcount := congrArg List.length hout
      rw [length_slice] at hcount
      omega
    · cases h
  · rintro ⟨hoff, hpos⟩
    have htotal : (0 + p.payload.length) % 65536 = p.payload.length := hreceived
    rw [hoff, htotal, if_neg (by omega), if_pos ⟨hpos, le_refl _⟩]
    refine Prod.ext rfl (congrArg some ?_)
    exact slice_blit fresh 0 p.payload

lemma ipv4Reassemble_roomy (fresh : ℕ → UInt8) (h : Roomy q frags) (hp : p ∈ frags) :
    (ipv4Reassemble fresh q p).1 = (acceptFragment (newEntry fresh p.hdr) p).1 := by
  obtain ⟨i, hi⟩ := findQueue_roomy fresh h hp
  rw [ipv4Reassemble, hi]

/-! ## Which packets make the round trip -/

/-- Queues of which none is in use. -/
def emptyQueues : FragQueues := fun _ => ⟨0, 0, 0, 0, fun _ => 0, 0, 0, false⟩

lemma roomy_emptyQueues (frags : List Ipv4Packet) : Roomy emptyQueues frags :=
  ⟨⟨0, by decide, rfl⟩, fun _ _ _ _ => rfl⟩

/-- One fragment that starts the datagram and is not empty comes back as it is. -/
lemma roundTrip_singleton {f : Ipv4Packet}
    (hsend : ipv4FragmentAndSend mtu fragId p = some [f]) (hpay : f.payload = p.payload)
    (hlen : p.payload.length < 65536) (hoff : rxOffset f.hdr = 0) (hpos : 0 < p.payload.length) :
    RoundTrip mtu fragId p := by
  refine ⟨[f], hsend, cons_ne_nil _ _, fun fresh q hroom ds d hmiss => ?_⟩
  -- there is one index only, so nothing has come before
  obtain ⟨i, hi⟩ := hmiss
  have hds : ds = [] := by
    rw [eq_nil_iff_forall_not_mem]
    intro j hj
    exact hi (Subsingleton.elim (α := Fin 1) j i ▸ hj)
  have hall : ∀ j, j ∈ d :: ds := fun j =>
    Subsingleton.elim (α := Fin 1) d j ▸ mem_cons_self
  have hd : [f].get d = f := by simp
  rw [hds, if_pos (hds ▸ hall), hd]
  have hone := ipv4Reassemble_roomy fresh hroom (mem_singleton_self f)
  refine hone.trans ?_
  rw [← hpay] at hlen hpos ⊢
  exact (acceptFragment_newEntry hlen).2 ⟨hoff, hpos⟩

/-- The converse for a packet that is sent as it is. -/
lemma roundTrip_unfragmented
    (hsend : ipv4FragmentAndSend mtu fragId p = some [p]) (hlen : p.payload.length < 65536)
    (h : RoundTrip mtu fragId p) : rxOffset p.hdr = 0 ∧ 0 < p.payload.length := by
  obtain ⟨frags, hsend', -, htrip⟩ := h
  cases hsend.symm.trans hsend'
  have hroom := roomy_emptyQueues [p]
  have hone := htrip (fun _ => 0) emptyQueues hroom [] 0 ⟨0, not_mem_nil⟩
  have hall : ∀ i : Fin [p].length, i ∈ [(0 : Fin [p].length)] := fun i =>
    mem_singleton.2 (Subsingleton.elim (α := Fin 1) i 0)
  rw [if_pos hall] at hone
  exact (acceptFragment_newEntry hlen).1
    ((ipv4Reassemble_roomy _ hroom (mem_singleton_self p)).symm.trans hone)

/-- A packet whose fragments all arrive behind its start does not come back. -/
lemma not_roundTrip_of_rxOffset_pos (hsend : ipv4FragmentAndSend mtu fragId p = some frags)
    (hoff : ∀ f ∈ frags, 0 < rxOffset f.hdr) : ¬ RoundTrip mtu fragId p := by
  rintro ⟨frags', hsend', hne, htrip⟩
  cases hsend.symm.trans hsend'
  -- all fragments but the first, and then the first
  have hpos : 0 < frags.length := length_pos_of_ne_nil hne
  let d : Fin frags.length := ⟨0, hpos⟩
  let ds := (finRange frags.length).filter (· ≠ d)
  have hmiss : ∃ i, i ∉ ds := ⟨d, by simp [ds]⟩
  have hall : ∀ i, i ∈ d :: ds := fun i => by simp [ds, em]
  -- the first byte is the one that the new buffer had
  have hhead : ∀ v : UInt8, p.payload.head? = some v := by
    intro v
    have htrip := htrip (fun _ => v) emptyQueues (roomy_emptyQueues frags) ds d hmiss
    rw [if_pos hall] at htrip
    have hempty : FirstByte v emptyQueues := fun _ _ huse => by cases huse
    have hds : ∀ f ∈ ds.map frags.get, 0 < rxOffset f.hdr := by
      intro f hf
      obtain ⟨i, -, rfl⟩ := mem_map.1 hf
      exact hoff _ (get_mem frags i)
    have hfirst := deliver_firstByte (fun _ => v) hempty hds
    exact (ipv4Reassemble_firstByte hfirst (hoff _ (get_mem frags d))).2 _
      (Prod.ext_iff.1 htrip).2
  have hcontra := (hhead 0).symm.trans (hhead 1)
  exact absurd (some.inj hcontra) (by decide)

/-- **The round trip.** A packet comes back from every delivery of its fragments
exactly if it is not empty and leaves as one fragment. -/
theorem roundTrip_iff (mtu : ℕ) (fragId : UInt16) (p : Ipv4Packet) (hlen : p.len ≤ 65535) :
    RoundTrip mtu fragId p ↔ OneFragment mtu p := by
  have hpay : p.payload.length < 65536 := by
    unfold Ipv4Packet.len at hlen
    omega
  have hpos : hdrLen < p.len ↔ 0 < p.payload.length := by
    unfold Ipv4Packet.len
    omega
  rw [OneFragment, hpos]
  by_cases hraw : p.len ≤ mtu % 65536
  · -- the packet is sent as it is
    have hsend : ipv4FragmentAndSend mtu fragId p = some [p] := if_pos hraw
    constructor
    · intro h
      obtain ⟨hoff, hpos⟩ := roundTrip_unfragmented hsend hpay h
      exact ⟨hpos, .inl ⟨hraw, hoff⟩⟩
    · rintro ⟨hpos, ⟨-, hoff⟩ | ⟨hlt, -⟩⟩
      · exact roundTrip_singleton hsend rfl hpay hoff hpos
      · exact absurd hraw (not_le.2 hlt)
  · have hsend : ipv4FragmentAndSend mtu fragId p
        = fragLoop mtu fragId p (p.payload.length + 1) 0 := if_neg hraw
    constructor
    · intro h
      obtain ⟨_, hfrags, hne, -⟩ := id h
      rw [hsend] at hfrags
      refine ⟨?_, .inr ⟨not_le.1 hraw, ?_⟩⟩
      · -- an empty packet has no fragments
        by_contra hzero
        rw [fragLoop, if_neg hzero] at hfrags
        exact hne (some.inj hfrags).symm
      · by_contra hmany
        exact not_roundTrip_of_rxOffset_pos (hsend.trans hfrags)
          (fun f hf => rxOffset_of_mem_fragLoop hpay (not_le.1 hmany) (dvd_zero 8) hfrags hf) h
    · rintro ⟨hpos, ⟨hle, -⟩ | ⟨-, hmax⟩⟩
      · exact absurd hle hraw
      · refine roundTrip_singleton (hsend.trans (fragLoop_eq_singleton fragId hpos hmax))
          (payload_fragmentAt_zero hmax) hpay (rxOffset_fragmentAt_zero hmax) hpos

/-- A datagram from 10.0.2.15 to 10.0.2.2 with the bytes `1, …, n`. -/
def countingPacket (n : ℕ) : Ipv4Packet where
  hdr := ⟨0x45, 0, htons (UInt16.ofNat (hdrLen + n)), 0, 0, 64, 17, 0,
    fun i => [10, 0, 2, 15].get i, fun i => [10, 0, 2, 2].get i⟩
  payload := (List.range n).map fun i => UInt8.ofNat (i + 1)

theorem roundTrip_iff_countingPacket :
    (countingPacket 16).len ≤ 65535 ∧ RoundTrip 1500 0 (countingPacket 16) :=
  ⟨by decide, (roundTrip_iff 1500 0 (countingPacket 16) (by decide)).2
    ⟨by decide, .inl ⟨by decide, by decide⟩⟩⟩

/-- With an MTU of 28 the 16 bytes leave as two fragments, and the receiver returns
eight bytes of the new buffer in place of the first fragment. -/
theorem not_roundTrip_countingPacket :
    (∃ f g, ipv4FragmentAndSend 28 0 (countingPacket 16) = some [f, g] ∧
      (ipv4Reassemble (fun _ => 0) (deliver (fun _ => 0) emptyQueues [f]) g).1
        = (0, some [0, 0, 0, 0, 0, 0, 0, 0, 9, 10, 11, 12, 13, 14, 15, 16])) ∧
      ¬ RoundTrip 28 0 (countingPacket 16) := by
  have hsend : ipv4FragmentAndSend 28 0 (countingPacket 16)
      = some [fragmentAt 28 0 (countingPacket 16) 0, fragmentAt 28 0 (countingPacket 16) 8] := rfl
  refine ⟨⟨_, _, hsend, by decide⟩, not_roundTrip_of_rxOffset_pos hsend fun f hf => ?_⟩
  have hmany : maxData 28 < (countingPacket 16).payload.length := by decide
  exact rxOffset_of_mem_fragLoop (by decide) hmany (dvd_zero 8) hsend hf

end Aurora.Ipv4
