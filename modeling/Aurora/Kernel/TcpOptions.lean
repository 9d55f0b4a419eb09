import Aurora.Lib.Bytes
import Mathlib.Tactic.IntervalCases

/-!
# TCP options (`net.c`)

Two loops walk over the options of a segment: `tcp_parse_sack`, and the search for the
SACK-permitted option in `tcp_handle_packet`. They are one walk here, which a function visits.
The options are the bytes between the header and the payload, and a read behind them has no
result.

## Main definitions

* `walkOptions`, `tcpParseSack`, `sackPermitted`, `tcpWriteSack`: the functions.
* `Safe`: both loops terminate and read only options.
* `parsing_iff`: when.
-/

namespace Aurora.TcpOptions

open Lib Option List UInt8

def tcpOptSackPerm : UInt8 := 4
def tcpOptSack : UInt8 := 5
def tcpMaxSackBlocks : ℕ := 4

/-- `ntohl`, which is `htonl` as well. -/
def ntohl (n : BitVec 32) : BitVec 32 :=
  ((n &&& 0xFF) <<< 24) ||| ((n &&& 0xFF00) <<< 8) ||| ((n &&& 0xFF0000) >>> 8) |||
    ((n &&& 0xFF000000) >>> 24)

/-- `struct tcp_sack_block`. -/
structure SackBlock where
  leftEdge : BitVec 32
  rightEdge : BitVec 32
  deriving DecidableEq

/-- The walk over the options from `pos` on. A length of 0 leaves it where it is. -/
def walkOptions {α : Type} (options : List UInt8) (visit : ℕ → UInt8 → UInt8 → α → Option α) :
    ℕ → ℕ → α → Option α
  | 0, _, _ => none
  | fuel + 1, pos, a =>
    if options.length ≤ pos then some a
    else do
      let kind ← options[pos]?
      if kind = 0 then some a
      else if kind = 1 then walkOptions options visit fuel (pos + 1) a
      else
        let len ← options[pos + 1]?
        let a ← visit pos kind len a
        walkOptions options visit fuel (pos + len.toNat) a

/-- `ntohl` of the word at `pos`. -/
def wordAt (options : List UInt8) (pos : ℕ) : Option (BitVec 32) :=
  if pos + 4 ≤ options.length then some (ntohl (BitVec.ofNat 32 (field options pos 4))) else none

def blockAt (options : List UInt8) (pos : ℕ) : Option SackBlock := do
  let leftEdge ← wordAt options pos
  let rightEdge ← wordAt options (pos + 4)
  some ⟨leftEdge, rightEdge⟩

/-- `n` blocks, from `pos` on. -/
def blocksAt (options : List UInt8) : ℕ → ℕ → Option (List SackBlock)
  | 0, _ => some []
  | n + 1, pos => do
    let block ← blockAt options pos
    let blocks ← blocksAt options n (pos + 8)
    some (block :: blocks)

/-- How many blocks are taken from an option. -/
def blocksOf (len : UInt8) : ℕ := min ((len.toNat - 2) / 8) tcpMaxSackBlocks

/-- `tcp_parse_sack`: the blocks of the last SACK option. -/
def tcpParseSack (options : List UInt8) (fuel : ℕ) : Option (List SackBlock) :=
  walkOptions options (fun pos kind len blocks =>
    if kind = tcpOptSack ∧ 10 ≤ len then blocksAt options (blocksOf len) (pos + 2)
    else some blocks) fuel 0 []

/-- The search for the SACK-permitted option. -/
def sackPermitted (options : List UInt8) (fuel : ℕ) : Option Bool :=
  walkOptions options (fun _ kind len found =>
    some (found || (kind = tcpOptSackPerm ∧ len = 2))) fuel 0 false

/-- `struct tcp_sack_state` with 1 to 4 blocks. -/
structure SackState where
  blocks : List SackBlock
  pos : 0 < blocks.length
  le : blocks.length ≤ tcpMaxSackBlocks

def SackBlock.bytes (b : SackBlock) : List UInt8 :=
  toLE 4 (ntohl b.leftEdge).toNat ++ toLE 4 (ntohl b.rightEdge).toNat

def tcpWriteSack (sack : SackState) : List UInt8 :=
  [tcpOptSack, UInt8.ofNat (2 + sack.blocks.length * 8)] ++ sack.blocks.flatMap SackBlock.bytes

/-! ## Safety -/

/-- Both loops terminate and read only options. -/
def Safe (options : List UInt8) : Prop :=
  (∃ fuel blocks, tcpParseSack options fuel = some blocks) ∧
    ∃ fuel found, sackPermitted options fuel = some found

/-- From `pos` on every option has a length, which is not 0, and the blocks of a SACK option are
all there. -/
inductive WellFormed (options : List UInt8) : ℕ → Prop where
  | done {pos : ℕ} (h : options.length ≤ pos) : WellFormed options pos
  | eol {pos : ℕ} (h : options[pos]? = some 0) : WellFormed options pos
  | nop {pos : ℕ} (h : options[pos]? = some 1) (next : WellFormed options (pos + 1)) :
      WellFormed options pos
  | option {pos : ℕ} {kind len : UInt8} (hkind : options[pos]? = some kind) (h0 : kind ≠ 0)
      (h1 : kind ≠ 1) (hlen : options[pos + 1]? = some len) (hpos : len ≠ 0)
      (hsack : kind = tcpOptSack → 10 ≤ len → pos + 2 + blocksOf len * 8 ≤ options.length)
      (next : WellFormed options (pos + len.toNat)) : WellFormed options pos

section

variable {options : List UInt8} {pos fuel : ℕ} {α : Type}
  {visit : ℕ → UInt8 → UInt8 → α → Option α} {a : α}

lemma ntohl_ntohl (n : BitVec 32) : ntohl (ntohl n) = n := by
  ext i hi
  simp only [ntohl]
  interval_cases i <;> simp

lemma isSome_blockAt : (blockAt options pos).isSome ↔ pos + 8 ≤ options.length := by
  unfold blockAt wordAt
  by_cases h : pos + 8 ≤ options.length
  · simp [h, show pos + 4 ≤ options.length by omega]
  · by_cases h' : pos + 4 ≤ options.length <;> simp [h, h', Nat.add_assoc]

lemma isSome_blocksAt {n : ℕ} :
    (blocksAt options n pos).isSome ↔ n = 0 ∨ pos + n * 8 ≤ options.length := by
  induction n generalizing pos with
  | zero => simp [blocksAt]
  | succ n ih =>
    have hblock : (blockAt options pos).isSome ↔ pos + 8 ≤ options.length := isSome_blockAt
    have hrest := @ih (pos + 8)
    rw [blocksAt]
    cases hb : blockAt options pos with
    | none =>
      simp only [hb, isSome_none, Bool.false_eq_true, false_iff] at hblock
      simp
      omega
    | some b =>
      simp only [hb, isSome_some, true_iff] at hblock
      cases hbs : blocksAt options n (pos + 8) with
      | none =>
        simp only [hbs, isSome_none, Bool.false_eq_true, false_iff] at hrest
        simp
        omega
      | some _ =>
        simp only [hbs, isSome_some, true_iff] at hrest
        simp
        omega

/-- What a walk that ends has seen. -/
lemma wellFormed_of_walk
    (hvisit : ∀ pos kind len a, (visit pos kind len a).isSome → kind = tcpOptSack → 10 ≤ len →
      pos + 2 + blocksOf len * 8 ≤ options.length)
    (h : (walkOptions options visit fuel pos a).isSome) : WellFormed options pos := by
  induction fuel generalizing pos a with
  | zero => cases h
  | succ fuel ih =>
    rw [walkOptions] at h
    split_ifs at h with hdone
    · exact .done hdone
    cases hkind : options[pos]? with
    | none => simp [hkind] at h
    | some kind =>
      simp only [hkind, bind_eq_bind, bind_some] at h
      split_ifs at h with h0 h1
      · exact .eol (h0 ▸ hkind)
      · exact .nop (h1 ▸ hkind) (ih h)
      cases hlen : options[pos + 1]? with
      | none => simp [hlen] at h
      | some len =>
        simp only [hlen, bind_some] at h
        cases hv : visit pos kind len a with
        | none => simp [hv] at h
        | some _ =>
          simp only [hv, bind_some] at h
          by_cases hpos : len = 0
          · subst hpos
            exact ih h
          · exact .option hkind h0 h1 hlen hpos (hvisit pos kind len a (by simp [hv])) (ih h)

/-- Well-formed options are walked over. -/
lemma WellFormed.walk (h : WellFormed options pos) (hvisit : ∀ pos kind len a,
      (kind = tcpOptSack → 10 ≤ len → pos + 2 + blocksOf len * 8 ≤ options.length) →
        (visit pos kind len a).isSome) (a : α) :
    ∃ fuel, (walkOptions options visit fuel pos a).isSome := by
  induction h generalizing a with
  | done h => exact ⟨1, by simp [walkOptions, h]⟩
  | eol h => exact ⟨1, by simp [walkOptions, h]⟩
  | nop h _ ih =>
    obtain ⟨fuel, hrun⟩ := ih a
    refine ⟨fuel + 1, ?_⟩
    rw [walkOptions]
    split_ifs
    · rfl
    · simpa [h] using hrun
  | @option pos kind len hkind h0 h1 hlen _ hsack _ ih =>
    obtain ⟨a', ha'⟩ := isSome_iff_exists.1 (hvisit pos kind len a hsack)
    obtain ⟨fuel, hrun⟩ := ih a'
    refine ⟨fuel + 1, ?_⟩
    rw [walkOptions]
    split_ifs
    · rfl
    · simpa [hkind, h0, h1, hlen, ha'] using hrun

lemma safe_iff (options : List UInt8) : Safe options ↔ WellFormed options 0 := by
  have hsome : ∀ {β : Type} {f : ℕ → Option β}, (∃ fuel b, f fuel = some b) ↔
      ∃ fuel, (f fuel).isSome := fun {β f} => by
    simp only [isSome_iff_exists]
  rw [Safe, hsome, hsome]
  constructor
  · rintro ⟨⟨fuel, h⟩, -⟩
    refine wellFormed_of_walk (fun pos kind len blocks hv hk hl => ?_) h
    rw [if_pos ⟨hk, hl⟩, isSome_blocksAt] at hv
    refine hv.resolve_left fun hzero => ?_
    have hten : 10 ≤ len.toNat := le_iff_toNat_le.1 hl
    simp only [blocksOf, tcpMaxSackBlocks] at hzero
    omega
  · intro h
    refine ⟨h.walk (fun pos kind len blocks hsack => ?_) [], h.walk (fun _ _ _ _ _ => rfl) false⟩
    split_ifs with hv
    · exact isSome_blocksAt.2 (.inr (hsack hv.1 hv.2))
    · rfl

/-! ## The round trip -/

lemma wordAt_append (xs ys : List UInt8) (w : BitVec 32) :
    wordAt (xs ++ (toLE 4 (ntohl w).toNat ++ ys)) xs.length = some w := by
  have hfield : field (xs ++ (toLE 4 (ntohl w).toNat ++ ys)) xs.length 4 = (ntohl w).toNat :=
    field_append rfl (ntohl w).isLt
  rw [wordAt, hfield, if_pos (by simp), BitVec.ofNat_toNat, BitVec.setWidth_eq, ntohl_ntohl]

lemma blocksAt_append (xs : List UInt8) (blocks : List SackBlock) :
    blocksAt (xs ++ blocks.flatMap SackBlock.bytes) blocks.length xs.length = some blocks := by
  induction blocks generalizing xs with
  | nil => rfl
  | cons b blocks ih =>
    have hleft := wordAt_append xs (toLE 4 (ntohl b.rightEdge).toNat ++
      blocks.flatMap SackBlock.bytes) b.leftEdge
    have hright := wordAt_append (xs ++ toLE 4 (ntohl b.leftEdge).toNat)
      (blocks.flatMap SackBlock.bytes) b.rightEdge
    have hrest := ih (xs ++ b.bytes)
    simp only [SackBlock.bytes, append_assoc, length_append, length_toLE]
      at hleft hright hrest
    simp only [length_cons, flatMap_cons, SackBlock.bytes, append_assoc, blocksAt,
      blockAt, hleft, hright, bind_eq_bind, bind_some]
    rw [hrest]
    rfl

lemma tcpParseSack_tcpWriteSack (sack : SackState) :
    tcpParseSack (tcpWriteSack sack) 2 = some sack.blocks := by
  have hpos := sack.pos
  have hle : sack.blocks.length ≤ 4 := sack.le
  generalize hlen : UInt8.ofNat (2 + sack.blocks.length * 8) = len
  have hval : len.toNat = 2 + sack.blocks.length * 8 := by
    rw [← hlen, toNat_ofNat']
    omega
  have hsize : (tcpWriteSack sack).length = len.toNat := by
    simp [tcpWriteSack, SackBlock.bytes, length_flatMap, hval]
    omega
  have hvisit : 10 ≤ len := by
    rw [le_iff_toNat_le, hval]
    exact Nat.add_le_add_left (Nat.mul_le_mul_right 8 hpos) 2
  have hcount : blocksOf len = sack.blocks.length := by
    simp only [blocksOf, tcpMaxSackBlocks, hval]
    omega
  have hread : blocksAt (tcpWriteSack sack) (blocksOf len) 2 = some sack.blocks := by
    rw [hcount]
    exact blocksAt_append [tcpOptSack, _] sack.blocks
  have hkind : (tcpWriteSack sack)[0]? = some tcpOptSack := rfl
  have hlen' : (tcpWriteSack sack)[1]? = some len := by rw [← hlen]; rfl
  rw [tcpParseSack, walkOptions, if_neg (by omega)]
  simp only [hkind, hlen', hread, hvisit, bind_eq_bind, bind_some, Nat.zero_add, and_self, if_true]
  rw [if_neg (by decide), if_neg (by decide), walkOptions, if_pos hsize.le]

end

/-- **TCP options**: both loops terminate and read only options, and what `tcp_write_sack` writes
is read back, exactly if the options are well formed. -/
theorem parsing_iff (options : List UInt8) (sack : SackState) :
    (Safe options ∧ ∃ fuel, tcpParseSack (tcpWriteSack sack) fuel = some sack.blocks) ↔
      WellFormed options 0 := by
  rw [safe_iff]
  exact and_iff_left ⟨2, tcpParseSack_tcpWriteSack sack⟩

/-- A length of 0: neither loop gets past the option. -/
theorem not_safe_zeroLength : ¬ Safe [2, 0, 0, 0] := by
  rintro ⟨⟨fuel, _, h⟩, -⟩
  have hstuck : ∀ fuel, tcpParseSack [2, 0, 0, 0] fuel = none := fun fuel => by
    induction fuel with
    | zero => rfl
    | succ fuel ih => exact ih
  simp [hstuck] at h

end Aurora.TcpOptions
