import Aurora.Lib.Run
import Mathlib.Logic.Function.Iterate

/-!
# The producer ring of the xHCI driver

A transfer ring (`xhci.c`) is an array of blocks whose last slot links back to the first one. The
driver marks the blocks of each lap with its cycle state, by which the controller sees how far it
may read. `xhci_ring_enqueue` counts the slot of the link as one of the others.

## Main definitions

* `Ring`, `xhciRingInit`, `xhciRingEnqueueTrb`: the driver's side.
* `Sys`, `consume`, `step`: a ring and a controller that reads it.
* `Delivered`: the controller sees what was enqueued, and the link is in place.
* `delivered_iff`: when that is so.
-/

namespace Aurora.Xhci

open Lib Function List BitVec

/-- `struct xhci_trb`. -/
structure Trb where
  parameter : UInt64
  status : UInt32
  control : UInt32
  deriving DecidableEq

/-- `XHCI_TRB_LINK << XHCI_TRB_TYPE_SHIFT`. -/
def trbLink : UInt32 := 0x1800

/-- `XHCI_TRB_TYPE_MASK`. -/
def trbTypeMask : UInt32 := 0xFC00

/-- `XHCI_TRB_C`, the cycle bit. -/
def trbC : UInt32 := 0x1

/-- `struct xhci_transfer_ring`. -/
structure Ring where
  trbs : ℕ → Trb
  physAddr : UInt64
  size : ℕ
  enqueue : ℕ
  pcs : UInt8

/-- The block that links the last slot to the first one. -/
def linkTrb (physAddr : UInt64) : Trb := ⟨physAddr, 0, trbLink ||| trbC⟩

/-- `xhci_ring_init` with memory, which is zeroed, at `physAddr`. -/
def xhciRingInit (physAddr : UInt64) (size : ℕ) : Ring where
  trbs := Function.update (fun _ => ⟨0, 0, 0⟩) (size - 1) (linkTrb physAddr)
  physAddr := physAddr
  size := size
  enqueue := 0
  pcs := 1

/-- `xhci_ring_enqueue`, with the slot that it returns. -/
def xhciRingEnqueue (r : Ring) : Ring × ℕ :=
  let enqueue := (r.enqueue + 1) % r.size
  ({ r with enqueue := enqueue, pcs := if enqueue = 0 then r.pcs ^^^ 1 else r.pcs }, r.enqueue)

/-- `trb`, marked with a cycle state. -/
def Trb.mark (trb : Trb) (pcs : UInt8) : Trb :=
  { trb with control := trb.control &&& ~~~trbC ||| pcs.toUInt32 }

/-- `xhci_ring_enqueue_trb`. -/
def xhciRingEnqueueTrb (r : Ring) (trb : Trb) : Ring :=
  let (r', idx) := xhciRingEnqueue r
  { r' with trbs := Function.update r'.trbs idx (trb.mark r'.pcs) }

/-! ## Runs -/

/-- A ring, and a controller: the slot it reads next, its cycle state, and the blocks it has seen.
Besides, the blocks that were given to the driver. -/
structure Sys where
  ring : Ring
  dequeue : ℕ
  ccs : UInt32
  seen : List Trb
  sent : List Trb

/-- The controller looks at the next block, if its cycle bit is the controller's cycle state. In
the last slot it follows a link, and toggles its cycle state; all other blocks it executes. -/
def consume (s : Sys) : Sys :=
  let trb := s.ring.trbs s.dequeue
  if trb.control &&& trbC ≠ s.ccs then s
  else if s.dequeue = s.ring.size - 1 ∧ trb.control &&& trbTypeMask = trbLink then
    { s with dequeue := 0, ccs := s.ccs ^^^ 1 }
  else { s with dequeue := s.dequeue + 1, seen := s.seen ++ [trb] }

/-- The driver enqueues a block, or the controller looks at one. -/
inductive Op
  | enqueue (trb : Trb)
  | consume

/-- The controller is behind by less than the slots of the ring that are not the link. -/
def Sys.Room (s : Sys) : Prop := s.sent.length < s.seen.length + (s.ring.size - 1)

instance (s : Sys) : Decidable s.Room := inferInstanceAs (Decidable (_ < _))

/-- One step; the driver waits for room. -/
def step (s : Sys) : Op → Option Sys
  | .enqueue trb =>
    if s.Room then some { s with ring := xhciRingEnqueueTrb s.ring trb, sent := s.sent ++ [trb] }
    else none
  | .consume => some (consume s)

/-- A new ring, which the controller reads from the beginning. -/
def Sys.init (physAddr : UInt64) (size : ℕ) : Sys where
  ring := xhciRingInit physAddr size
  dequeue := 0
  ccs := 1
  seen := []
  sent := []

/-- The cycle state of the lap in which the block number `i` is enqueued. -/
def lapState (size i : ℕ) : UInt8 := if (i / (size - 1)) % 2 = 0 then 1 else 0

/-- The blocks with the cycle states of their laps. -/
def marked (size : ℕ) (trbs : List Trb) : List Trb :=
  trbs.mapIdx fun i trb => trb.mark (lapState size i)

/-- What the controller has seen are the first blocks, marked with the cycle states of their laps;
it sees the others if it goes on; and the link is in place. -/
structure Delivered (s : Sys) : Prop where
  order : s.seen <+: marked s.ring.size s.sent
  all : ∃ k, (consume^[k] s).seen = marked s.ring.size s.sent
  link : s.ring.trbs (s.ring.size - 1) = linkTrb s.ring.physAddr

/-- Fewer blocks were enqueued before than there are slots besides the link. -/
def Fits (s : Sys) : Op → Prop
  | .enqueue _ => s.Room → s.sent.length < s.ring.size - 1
  | .consume => True

/-! ## The first lap -/

lemma mark_cycle (trb : Trb) (pcs : UInt8) : (trb.mark pcs).control &&& trbC =
    pcs.toUInt32 &&& trbC := by
  apply UInt32.toBitVec_inj.1
  ext i hi
  simp only [Trb.mark, UInt32.toBitVec_and, UInt32.toBitVec_or, UInt32.toBitVec_not,
    getElem_and, getElem_or, getElem_not]
  cases trbC.toBitVec[i] <;> simp

lemma linkTrb_cycle (physAddr : UInt64) : (linkTrb physAddr).control &&& trbC = 1 := by
  show (trbLink ||| trbC) &&& trbC = 1
  decide

lemma linkTrb_type (physAddr : UInt64) : (linkTrb physAddr).control &&& trbTypeMask = trbLink := by
  show (trbLink ||| trbC) &&& trbTypeMask = trbLink
  decide

/-- Within the first lap all blocks have cycle state `1`. -/
lemma marked_eq {size : ℕ} {trbs : List Trb} (h : trbs.length ≤ size - 1) :
    marked size trbs = trbs.map (·.mark 1) := by
  refine ext_getElem (by simp [marked]) fun i hi hi' => ?_
  have hlt : i < size - 1 := by
    rw [marked, length_mapIdx] at hi
    omega
  simp [marked, lapState, Nat.div_eq_of_lt hlt]

/-- The state of a ring of `size` slots in which less than a lap was enqueued. -/
structure FirstLap (physAddr : UInt64) (size : ℕ) (s : Sys) : Prop where
  addr : s.ring.physAddr = physAddr
  slots : s.ring.size = size
  sent : s.sent.length ≤ size - 1
  enqueue : s.ring.enqueue = s.sent.length
  pcs : s.ring.pcs = 1
  filled : ∀ i trb, s.sent[i]? = some trb → s.ring.trbs i = trb.mark 1
  blank : ∀ i, s.sent.length ≤ i → i < size - 1 → s.ring.trbs i = ⟨0, 0, 0⟩
  link : s.ring.trbs (size - 1) = linkTrb physAddr
  seen : s.seen = (s.sent.map (·.mark 1)).take s.seen.length
  controller : s.ccs = 1 ∧ s.dequeue = s.seen.length ∧ s.seen.length ≤ s.sent.length ∨
    s.ccs = 0 ∧ s.dequeue = 0 ∧ s.seen.length = size - 1 ∧ s.sent.length = size - 1

section

variable {physAddr : UInt64} {size : ℕ} {s : Sys}

lemma firstLap_init (physAddr : UInt64) (size : ℕ) :
    FirstLap physAddr size (.init physAddr size) where
  addr := rfl
  slots := rfl
  sent := Nat.zero_le _
  enqueue := rfl
  pcs := rfl
  filled := nofun
  blank := by
    intro i _ hi
    show update (fun _ => (⟨0, 0, 0⟩ : Trb)) (size - 1) (linkTrb physAddr) i = _
    simp [(Nat.ne_of_lt hi)]
  link := by
    show update (fun _ => (⟨0, 0, 0⟩ : Trb)) (size - 1) (linkTrb physAddr) (size - 1) = _
    simp
  seen := rfl
  controller := .inl ⟨rfl, rfl, Nat.le_refl _⟩

/-- The controller takes the next block, as long as there is one. -/
lemma FirstLap.take (h : FirstLap physAddr size s) (hless : s.seen.length < s.sent.length) :
    FirstLap physAddr size (consume s) ∧ (consume s).seen.length = s.seen.length + 1 ∧
      (consume s).sent = s.sent := by
  obtain ⟨hccs, hdeq, -⟩ | ⟨-, -, hseen, hsent⟩ := h.controller
  · have hlt := h.sent
    have hget : s.sent[s.seen.length]? = some s.sent[s.seen.length] := getElem?_eq_getElem hless
    have htrb := h.filled _ _ hget
    have hcycle : (s.ring.trbs s.dequeue).control &&& trbC = s.ccs := by
      rw [hdeq, htrb, mark_cycle, hccs]
      rfl
    have hstep : consume s = { s with
        dequeue := s.dequeue + 1, seen := s.seen ++ [s.ring.trbs s.dequeue] } := by
      unfold consume
      simp only
      rw [if_neg (not_not.2 hcycle), if_neg]
      rintro ⟨heq, -⟩
      rw [h.slots] at heq
      omega
    rw [hstep]
    refine ⟨⟨h.addr, h.slots, h.sent, h.enqueue, h.pcs, h.filled, h.blank, h.link, ?_, .inl ⟨hccs,
      ?_, ?_⟩⟩, ?_, rfl⟩
    · rw [length_append, length_singleton, take_add_one, ← h.seen, hdeq, htrb,
        getElem?_map, hget]
      rfl
    · simp [length_append, hdeq]
    · rwa [length_append, length_singleton]
    · simp [length_append]
  · omega

section

variable (hsize : 2 ≤ size) (h : FirstLap physAddr size s)

include hsize h

/-- When the controller has seen all blocks, it finds no other one. -/
lemma FirstLap.stay (hall : s.sent.length ≤ s.seen.length) :
    FirstLap physAddr size (consume s) := by
  have hsent := h.sent
  obtain ⟨hccs, hdeq, hle⟩ | ⟨hccs, hdeq, -, hfull⟩ := h.controller
  · by_cases hlast : s.sent.length = size - 1
    · have hstep : consume s = { s with dequeue := 0, ccs := s.ccs ^^^ 1 } := by
        have hslot : s.dequeue = size - 1 := by omega
        unfold consume
        simp only
        rw [hslot, h.link, h.slots, hccs, if_neg (not_not.2 (linkTrb_cycle physAddr)),
          if_pos ⟨rfl, linkTrb_type physAddr⟩]
      rw [hstep]
      refine ⟨h.addr, h.slots, h.sent, h.enqueue, h.pcs, h.filled, h.blank, h.link, h.seen,
        .inr ⟨?_, rfl, ?_, hlast⟩⟩
      · rw [hccs]
        rfl
      · show s.seen.length = size - 1
        omega
    · have hstep : consume s = s := by
        unfold consume
        simp only
        rw [h.blank s.dequeue (by omega) (by omega), hccs, if_pos (by decide)]
      rwa [hstep]
  · have hstep : consume s = s := by
      have hget : s.sent[0]? = some s.sent[0] := getElem?_eq_getElem (by omega)
      unfold consume
      simp only
      rw [hdeq, h.filled 0 _ hget, mark_cycle, hccs, if_pos (by decide)]
    rwa [hstep]

lemma FirstLap.consume : FirstLap physAddr size (consume s) := by
  by_cases hless : s.seen.length < s.sent.length
  · exact (h.take hless).1
  · exact h.stay hsize (Nat.le_of_not_lt hless)

omit hsize h in
/-- The controller sees all blocks if it goes on. -/
lemma FirstLap.sees_all (h : FirstLap physAddr size s) :
    ∃ k, (Xhci.consume^[k] s).seen = s.sent.map (·.mark 1) := by
  obtain ⟨k, hk⟩ : ∃ k, s.seen.length + k = s.sent.length ∨ s.sent.length ≤ s.seen.length ∧ k = 0 :=
    ⟨s.sent.length - s.seen.length, by omega⟩
  induction k generalizing s with
  | zero =>
    refine ⟨0, ?_⟩
    rw [iterate_zero, id, h.seen]
    exact take_of_length_le (by rw [length_map]; omega)
  | succ k ih =>
    obtain ⟨h', hlen, hsent⟩ := h.take (by omega)
    obtain ⟨j, hj⟩ := ih h' (by rw [hlen, hsent]; omega)
    refine ⟨j + 1, ?_⟩
    rw [iterate_succ_apply, hj, hsent]

omit hsize h in
lemma FirstLap.delivered (h : FirstLap physAddr size s) : Delivered s := by
  have hmarked : marked s.ring.size s.sent = s.sent.map (·.mark 1) := by
    rw [h.slots]
    exact marked_eq h.sent
  refine ⟨?_, ?_, ?_⟩
  · rw [hmarked, h.seen]
    exact take_prefix ..
  · rw [hmarked]
    exact h.sees_all
  · rw [h.slots, h.addr]
    exact h.link

omit hsize h in
/-- Another block, in the slot after those of the others. -/
lemma FirstLap.enqueueTrb (h : FirstLap physAddr size s) (trb : Trb)
    (hfits : s.sent.length < size - 1) :
    FirstLap physAddr size
      { s with ring := xhciRingEnqueueTrb s.ring trb, sent := s.sent ++ [trb] } := by
  have hnext : (s.ring.enqueue + 1) % s.ring.size = s.sent.length + 1 := by
    rw [h.enqueue, h.slots]
    exact Nat.mod_eq_of_lt (by omega)
  have hring : xhciRingEnqueueTrb s.ring trb = { s.ring with
      enqueue := s.sent.length + 1
      trbs := update s.ring.trbs s.sent.length (trb.mark 1) } := by
    simp only [xhciRingEnqueueTrb, xhciRingEnqueue, hnext, h.pcs]
    rw [h.enqueue]
    rfl
  rw [hring]
  refine ⟨h.addr, h.slots, ?_, ?_, h.pcs, fun i trb' hi => ?_, fun i hi hlt => ?_, ?_, ?_, ?_⟩
  · rwa [length_append, length_singleton]
  · simp [length_append]
  · show update s.ring.trbs s.sent.length (trb.mark 1) i = trb'.mark 1
    by_cases hlast : i = s.sent.length
    · rw [hlast, getElem?_concat_length] at hi
      cases hi
      simp [hlast]
    · have hlen := (List.getElem?_eq_some_iff.1 hi).1
      rw [length_append, length_singleton] at hlen
      rw [getElem?_append_left (by omega)] at hi
      rw [update_of_ne hlast]
      exact h.filled i trb' hi
  · rw [length_append, length_singleton] at hi
    show update s.ring.trbs s.sent.length (trb.mark 1) i = _
    rw [update_of_ne (by omega)]
    exact h.blank i (by omega) hlt
  · show update s.ring.trbs s.sent.length (trb.mark 1) (size - 1) = _
    rw [update_of_ne (by omega)]
    exact h.link
  · obtain ⟨-, -, hle⟩ | ⟨-, -, -, hfull⟩ := h.controller
    · rw [map_append, take_append_of_le_length (by rwa [length_map])]
      exact h.seen
    · omega
  · obtain ⟨hccs, hdeq, hle⟩ | ⟨-, -, -, hfull⟩ := h.controller
    · refine .inl ⟨hccs, hdeq, ?_⟩
      rw [length_append, length_singleton]
      exact Nat.le_succ_of_le hle
    · omega

/-- One more block than there are slots goes where the link is. -/
lemma FirstLap.not_link (trb : Trb) (hfull : ¬ s.sent.length < size - 1) :
    (xhciRingEnqueueTrb s.ring trb).trbs (size - 1) ≠ linkTrb physAddr := by
  have hsent := h.sent
  have hlast : s.ring.enqueue = size - 1 := by
    rw [h.enqueue]
    omega
  have hnext : (s.ring.enqueue + 1) % s.ring.size = 0 := by
    rw [hlast, h.slots, Nat.sub_add_cancel (by omega)]
    exact Nat.mod_self size
  have hslot : (xhciRingEnqueueTrb s.ring trb).trbs (size - 1) = trb.mark 0 := by
    simp only [xhciRingEnqueueTrb, xhciRingEnqueue, hnext, h.pcs]
    rw [hlast, update_self]
    rfl
  intro heq
  have hcycle := mark_cycle trb 0
  rw [← hslot, heq, linkTrb_cycle] at hcycle
  revert hcycle
  decide

lemma FirstLap.exec {op : Op} (hfits : Fits s op) : FirstLap physAddr size (exec step s op) := by
  refine exec_invariant (fun s' hstep => ?_) h
  cases op with
  | enqueue trb =>
    simp only [step] at hstep
    split at hstep
    · rename_i hroom
      cases hstep
      have hless := hfits hroom
      rw [h.slots] at hless
      exact h.enqueueTrb trb hless
    · cases hstep
  | consume =>
    cases hstep
    exact h.consume hsize

lemma FirstLap.fits {op : Op} (hdel : Delivered (Lib.exec step s op)) : Fits s op := by
  cases op with
  | enqueue trb =>
    intro hroom
    by_contra hfull
    rw [h.slots] at hfull
    have hlink := hdel.link
    rw [Lib.exec, step, if_pos hroom] at hlink
    have hring : (xhciRingEnqueueTrb s.ring trb).size = size ∧
        (xhciRingEnqueueTrb s.ring trb).physAddr = physAddr := ⟨h.slots, h.addr⟩
    simp only [Option.getD_some] at hlink
    rw [hring.1, hring.2] at hlink
    exact h.not_link hsize trb hfull hlink
  | consume => trivial

end

end

/-- **The controller sees what is enqueued** exactly as long as the ring was not filled once. -/
theorem delivered_iff (physAddr : UInt64) {size : ℕ} (hsize : 3 ≤ size) (ops : List Op) :
    (∀ fs, fs <+: ops → Delivered (run step (.init physAddr size) fs)) ↔
      Along step Fits (.init physAddr size) ops := by
  have htwo : 2 ≤ size := by omega
  have hkeep : ∀ s op, FirstLap physAddr size s → Fits s op →
      FirstLap physAddr size (exec step s op) := fun _ _ h => h.exec htwo
  have hneed : ∀ s op, FirstLap physAddr size s → Delivered (exec step s op) → Fits s op :=
    fun _ _ h => h.fits htwo
  exact forall_prefix_iff_along (fun _ h => h.delivered) hkeep hneed
    (firstLap_init physAddr size) ops

/-- In a ring of three slots, the third block replaces the link, although the controller has seen
the first two. -/
theorem not_delivered_third :
    ¬ Delivered (run step (.init 0x1000 3)
      [.enqueue ⟨0, 0, 0x400⟩, .consume, .enqueue ⟨0, 0, 0x400⟩, .consume,
        .enqueue ⟨0, 0, 0x400⟩]) := by
  intro h
  have hlink := h.link
  revert hlink
  decide

/-- Two blocks in a ring of three slots. -/
theorem delivered_iff_second :
    Delivered (run step (.init 0x1000 3) [.enqueue ⟨0, 0, 0x400⟩, .enqueue ⟨0, 0, 0x400⟩]) := by
  refine (delivered_iff 0x1000 (by decide) _).2 ?_ _ (prefix_refl _)
  refine ⟨fun _ => ?_, fun _ => ?_, trivial⟩ <;> decide

end Aurora.Xhci
