import Aurora.Lib.Run
import Mathlib.Data.Fintype.Pi

/-!
# Neighbour caches (`net.c`, `ipv6.c`)

The ARP cache and the IPv6 neighbour cache are the same table of 16 entries; only ARP entries
expire. `arp_cache_add` takes a free or the oldest entry and does not look for the address.

## Main definitions

* `cacheFind`, `cacheAdd`, `cacheAge`: the functions of both caches.
* `Good`: addresses are unique and a lookup returns the last binding.
* `good_iff`: the additions that keep this.
-/

namespace Aurora.Neighbour

open Lib Function List

/-- A link address. -/
abbrev Mac := Fin 6 → UInt8

/-- An entry for an address of `n` bytes; `ageMs` is only used for ARP. -/
structure Entry (n : ℕ) where
  ip : Fin n → UInt8
  mac : Mac
  age : ℤ
  valid : Bool
  ageMs : UInt64

variable {n : ℕ}

/-- All bytes of the entry are 0. -/
def Entry.zero : Entry n := ⟨fun _ => 0, fun _ => 0, 0, false, 0⟩

/-- The cache with its counter; `latest` is not stored, it is the binding that was last added. -/
structure Cache (n : ℕ) where
  entries : Fin 16 → Entry n
  ageCounter : ℤ
  latest : (Fin n → UInt8) → Option Mac

def Cache.init : Cache n := ⟨fun _ => .zero, 0, fun _ => none⟩

/-- `++arp_age_counter` on an `int`. -/
def tick (counter : ℤ) : ℤ := (counter + 1).bmod (2 ^ 32)

/-! ## The functions -/

/-- `arp_cache_find`, `ipv6_neighbor_find`. -/
def cacheFind (c : Cache n) (ip : Fin n → UInt8) (now : UInt64) : Cache n × Option Mac :=
  match (finRange 16).find? fun i => (c.entries i).valid && (c.entries i).ip = ip with
  | none => (c, none)
  | some i =>
    let entry := { c.entries i with age := tick c.ageCounter, ageMs := now }
    ({ c with entries := Function.update c.entries i entry, ageCounter := tick c.ageCounter },
      some entry.mac)

/-- The loop that looks for an entry to overwrite. -/
def pick (entries : Fin 16 → Entry n) : List (Fin 16) → Fin 16 → ℤ → Fin 16
  | [], target, _ => target
  | i :: is, target, oldestAge =>
    if !(entries i).valid then i
    else if (entries i).age < oldestAge then pick entries is i (entries i).age
    else pick entries is target oldestAge

/-- `arp_cache_add`, `ipv6_neighbor_add`. -/
def cacheAdd (c : Cache n) (ip : Fin n → UInt8) (mac : Mac) (now : UInt64) : Cache n :=
  let target := pick c.entries (finRange 16) 0 (c.entries 0).age
  { entries := Function.update c.entries target ⟨ip, mac, tick c.ageCounter, true, now⟩
    ageCounter := tick c.ageCounter
    latest := Function.update c.latest ip (some mac) }

def arpEntryTimeoutMs : UInt64 := 600000

/-- `arp_cache_age`. -/
def cacheAge (c : Cache n) (now : UInt64) : Cache n :=
  { c with entries := fun i =>
      if (c.entries i).valid ∧ (c.entries i).ageMs ≠ 0 ∧
          now - (c.entries i).ageMs > arpEntryTimeoutMs then .zero
      else c.entries i }

inductive Op (n : ℕ)
  | add (ip : Fin n → UInt8) (mac : Mac) (now : UInt64)
  | find (ip : Fin n → UInt8) (now : UInt64)
  | age (now : UInt64)

def step (c : Cache n) : Op n → Option (Cache n)
  | .add ip mac now => some (cacheAdd c ip mac now)
  | .find ip now => some (cacheFind c ip now).1
  | .age now => some (cacheAge c now)

/-! ## The property -/

/-- No two valid entries have the same address. -/
def Unique (c : Cache n) : Prop :=
  ∀ i j, (c.entries i).valid → (c.entries j).valid → (c.entries i).ip = (c.entries j).ip → i = j

/-- Addresses are unique, and a lookup that succeeds returns the binding that was added last. -/
structure Good (c : Cache n) : Prop where
  unique : Unique c
  latest : ∀ ip mac now, (cacheFind c ip now).2 = some mac → c.latest ip = some mac

/-- The cache is full and the entry is the first one of the least age. -/
def Oldest (entries : Fin 16 → Entry n) (i : Fin 16) : Prop :=
  (∀ j, (entries j).valid) ∧
    ∀ j, (entries i).age ≤ (entries j).age ∧ (j < i → (entries i).age < (entries j).age)

/-- An address is only added if it has no entry, or the one that is going to be replaced. -/
def Fits (c : Cache n) : Op n → Prop
  | .add ip _ _ => ∀ i, (c.entries i).valid → (c.entries i).ip = ip → Oldest c.entries i
  | _ => True

/-! ## The entry that is overwritten -/

section

variable {entries : Fin 16 → Entry n}

/-- The loop ends at a free entry, or at the first of the least age. -/
lemma pick_spec {is : List (Fin 16)} {target : Fin 16} (hsorted : (target :: is).Pairwise (· < ·)) :
    let r := pick entries is target (entries target).age
    (entries r).valid = false ∨ (∀ j ∈ is, (entries j).valid) ∧ r ∈ target :: is ∧
      ∀ j ∈ target :: is, (entries r).age ≤ (entries j).age ∧
        (j < r → (entries r).age < (entries j).age) := by
  induction is generalizing target with
  | nil => exact .inr ⟨nofun, mem_singleton_self _, by simp [pick]⟩
  | cons i is ih =>
    obtain ⟨hlt, hrest⟩ := pairwise_cons.1 hsorted
    have hti := hlt i mem_cons_self
    simp only [pick]
    by_cases hi : (entries i).valid
    · rw [hi, Bool.not_true, if_neg nofun]
      split_ifs with hage
      · refine (ih hrest).imp_right fun ⟨hvalid, hmem, hmin⟩ => ?_
        have hle := (hmin i mem_cons_self).1
        refine ⟨forall_mem_cons.2 ⟨hi, hvalid⟩, mem_cons_of_mem _ hmem, ?_⟩
        exact forall_mem_cons.2 ⟨⟨by omega, fun _ => by omega⟩, hmin⟩
      · refine (ih (hsorted.sublist (by simp))).imp_right fun ⟨hvalid, hmem, hmin⟩ => ?_
        obtain ⟨htarget, hmin'⟩ := forall_mem_cons.1 hmin
        refine ⟨forall_mem_cons.2 ⟨hi, hvalid⟩, ?_, ?_⟩
        · exact cons_subset_cons _ (subset_cons_self _ _) hmem
        · refine forall_mem_cons.2 ⟨htarget, forall_mem_cons.2 ⟨⟨by omega, ?_⟩, hmin'⟩⟩
          intro hir
          omega
    · exact .inl (by simp [hi])

lemma pick_cases (entries : Fin 16 → Entry n) :
    let r := pick entries (finRange 16) 0 (entries 0).age
    (entries r).valid = false ∨ Oldest entries r := by
  obtain ⟨is, his⟩ : ∃ is, finRange 16 = 0 :: is := ⟨_, finRange_succ⟩
  have hmem : ∀ j, j ∈ 0 :: is := fun j => his ▸ mem_finRange j
  rw [his, pick]
  by_cases h0 : (entries 0).valid
  · rw [h0, Bool.not_true, if_neg nofun, if_neg (lt_irrefl _)]
    refine (pick_spec (his ▸ pairwise_lt_finRange 16)).imp_right fun ⟨hvalid, _, hmin⟩ => ?_
    have hall : ∀ j ∈ 0 :: is, (entries j).valid := forall_mem_cons.2 ⟨h0, hvalid⟩
    exact ⟨fun j => hall j (hmem j), fun j => hmin j (hmem j)⟩
  · exact .inl (by simp [h0])

lemma Oldest.eq {i j : Fin 16} (hi : Oldest entries i) (hj : Oldest entries j) : i = j := by
  by_contra hne
  obtain hlt | hlt := lt_or_gt_of_ne hne
  · exact absurd ((hj.2 i).2 hlt) (not_lt.2 (hi.2 j).1)
  · exact absurd ((hi.2 j).2 hlt) (not_lt.2 (hj.2 i).1)

end

/-! ## Runs -/

/-- Addresses are unique and every entry holds the last binding. -/
structure Held (c : Cache n) : Prop where
  unique : Unique c
  latest : ∀ i, (c.entries i).valid → c.latest (c.entries i).ip = some (c.entries i).mac

section

variable {c c' : Cache n} {ip : Fin n → UInt8} {mac : Mac} {now : UInt64}

lemma Held.good (h : Held c) : Good c := by
  refine ⟨h.unique, fun ip mac now hfind => ?_⟩
  unfold cacheFind at hfind
  split at hfind
  · cases hfind
  · next i hi =>
    have hentry := find?_some hi
    rw [Bool.and_eq_true, decide_eq_true_eq] at hentry
    obtain ⟨hvalid, rfl⟩ := hentry
    exact (h.latest i hvalid).trans hfind

/-- A step that only drops entries. -/
lemma Held.mono (h : Held c) (hlatest : c'.latest = c.latest)
    (hsub : ∀ i, (c'.entries i).valid → (c.entries i).valid ∧
      (c'.entries i).ip = (c.entries i).ip ∧ (c'.entries i).mac = (c.entries i).mac) :
    Held c' := by
  refine ⟨fun i j hi hj heq => ?_, fun i hi => ?_⟩
  · rw [(hsub i hi).2.1, (hsub j hj).2.1] at heq
    exact h.unique i j (hsub i hi).1 (hsub j hj).1 heq
  · rw [hlatest, (hsub i hi).2.1, (hsub i hi).2.2]
    exact h.latest i (hsub i hi).1

lemma Held.find (h : Held c) : Held (cacheFind c ip now).1 := by
  unfold cacheFind
  split
  · exact h
  · next i hi =>
    refine h.mono rfl fun j hj => ?_
    by_cases hij : j = i
    · subst hij
      simp only [update_self] at hj ⊢
      exact ⟨hj, trivial, trivial⟩
    · simp only [update_of_ne hij] at hj ⊢
      exact ⟨hj, trivial, trivial⟩

lemma Held.age (h : Held c) : Held (cacheAge c now) := by
  refine h.mono rfl fun i hi => ?_
  simp only [cacheAge] at hi ⊢
  split_ifs at hi ⊢
  · cases hi
  · exact ⟨hi, rfl, rfl⟩

lemma Held.add (h : Held c) (hfits : Fits c (.add ip mac now)) : Held (cacheAdd c ip mac now) := by
  have hpick := pick_cases c.entries
  simp only [cacheAdd]
  generalize pick c.entries (finRange 16) 0 (c.entries 0).age = t at hpick ⊢
  have hother : ∀ {i}, i ≠ t → (c.entries i).valid → (c.entries i).ip ≠ ip := by
    intro i hit hi hip
    have hold := hfits i hi hip
    obtain hfree | ht := hpick
    · simp [hold.1 t] at hfree
    · exact hit (hold.eq ht)
  refine ⟨fun i j hi hj heq => ?_, fun i hi => ?_⟩
  · by_cases hit : i = t <;> by_cases hjt : j = t
    · rw [hit, hjt]
    · subst hit
      simp only [update_self, update_of_ne hjt] at hj heq
      exact absurd heq.symm (hother hjt hj)
    · subst hjt
      simp only [update_self, update_of_ne hit] at hi heq
      exact absurd heq (hother hit hi)
    · simp only [update_of_ne hit, update_of_ne hjt] at hi hj heq
      exact h.unique i j hi hj heq
  · by_cases hit : i = t
    · simp [hit]
    · simp only [update_of_ne hit] at hi ⊢
      rw [update_of_ne (hother hit hi)]
      exact h.latest i hi

/-- An address that has another entry then has two. -/
lemma fits_of_unique (h : Good (cacheAdd c ip mac now)) : Fits c (.add ip mac now) := by
  intro i hi hip
  have hpick := pick_cases c.entries
  have hunique := h.unique
  simp only [Unique, cacheAdd] at hunique
  generalize pick c.entries (finRange 16) 0 (c.entries 0).age = t at hpick hunique
  obtain rfl : i = t := by
    by_contra hit
    refine hit (hunique i t ?_ ?_ ?_)
    · rwa [update_of_ne hit]
    · simp
    · simp [hit, hip]
  obtain hfree | hold := hpick
  · simp [hi] at hfree
  · exact hold

lemma held_init : Held (Cache.init : Cache n) := ⟨fun _ _ => nofun, fun _ => nofun⟩

/-- **The neighbour caches**: the property holds all along a run exactly if an address is only
added when it has no valid entry or its entry is the one that is replaced. -/
theorem good_iff (ops : List (Op n)) :
    (∀ fs, fs <+: ops → Good (run step Cache.init fs)) ↔ Along step Fits Cache.init ops := by
  refine forall_prefix_iff_along (fun c (h : Held c) => h.good) (fun c op h hfits => ?_)
    (fun c op _ hgood => ?_) held_init ops
  · cases op with
    | add ip mac now => exact h.add hfits
    | find ip now => exact h.find
    | age now => exact h.age
  · cases op with
    | add ip mac now => exact fits_of_unique hgood
    | find | age => trivial

end

/-- An address that moves to another link address is found at the old one. -/
theorem not_good_moved : ¬ Good (run step (Cache.init : Cache 4)
    [.add (fun _ => 10) (fun _ => 1) 1, .add (fun _ => 10) (fun _ => 2) 2]) := by
  intro h
  exact absurd (h.unique 0 1 rfl rfl rfl) (by decide)

end Aurora.Neighbour
