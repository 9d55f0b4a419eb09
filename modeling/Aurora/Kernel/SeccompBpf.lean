import Aurora.Kernel.Seccomp
import Mathlib.Algebra.Group.Nat.Defs

/-!
# `seccomp_run_bpf` against the classic BPF machine

One iteration of the interpreter's loop computes what the classic machine computes
for the same instruction, except in the cases listed by `Departs`: a jump whose
target the source computes inside the program (it is one short), a division by
zero, the three loads the switch has no case for, and the loads whose 32-bit bound
check wraps. A run that meets none of them returns the classic verdict.

## Main definitions

* `classicVerdict`: the verdict of the classic machine on the filtered structure.
* `Departs`: where the source departs from the machine.
* `Conforms`: the classic run meets no such instruction.
* `Simulates`: an iteration does what an outcome of the machine asks for.
* `Onward`, `StandsStill`: the run takes no jump back, or a jump to itself.
-/

namespace Aurora.Seccomp

open Lib Aurora.Lib.Bpf Function List Option UInt32

/-- The filtered structure as a packet. -/
def packet (d : SeccompData) : Packet := ⟨sizeofSeccompData, d.byte⟩

/-- `0` for the allowing value, `-1` for every other value and for a killed run. -/
def verdict (v : Option UInt32) : ℤ := if v = some seccompRetAllow then 0 else -1

/-- The verdict of the classic machine. -/
def classicVerdict (prog : ℕ → SockFilter) (len : UInt16) (d : SeccompData) : ℤ :=
  verdict (Bpf.eval prog len.toNat (packet d))

/-- The instructions at which `seccomp_run_bpf` departs from the classic machine. -/
def Departs (len : UInt16) (insn : SockFilter) (pc : ℕ) (r : Regs) : Op → Prop
  | .ja => (pc + insn.k.toNat) % 2 ^ 32 < len.toNat
  | .jmp c src =>
    pc + (if c.eval r.a (src.val insn.k r) then insn.jt else insn.jf).toNat < len.toNat
  | .alu .div src => src.val insn.k r = 0
  | .alu .mod src => src.val insn.k r = 0
  | .ldMem => insn.k.toNat < memWords
  | .ldInd .word => r.x.toNat + insn.k.toNat < 2 ^ 32 ∧ 2 ^ 32 ≤ r.x.toNat + insn.k.toNat + 4
  | .ldInd sz => r.x.toNat + insn.k.toNat + sz.bytes ≤ sizeofSeccompData
  | .ldAbs sz => 2 ^ 32 ≤ insn.k.toNat + sz.bytes
  | .ldxMsh => 2 ^ 32 ≤ insn.k.toNat + 1
  | _ => False

/-- The classic run of the program on the structure meets no departing instruction. -/
def Conforms (prog : ℕ → SockFilter) (len : UInt16) (d : SeccompData) : Prop :=
  ∀ n pc r op, visit prog len.toNat (packet d) n = some (pc, r) → pc < len.toNat →
    decode (prog pc).code = some op → ¬ Departs len (prog pc) pc r op

/-! ## The switch and the decoder -/

/-- The instructions without a case in the switch. -/
def uncovered : List Op := [.ldMem, .ldInd .half, .ldInd .byte]

/-- The constants of the header are the classic encoding. -/
lemma caseCode_eq (op : Op) : caseCode op = op.code := by
  have hall : ∀ op ∈ Op.all, caseCode op = op.code := by decide
  exact hall op op.mem_all

lemma mem_caseLabels_or_uncovered (op : Op) : op ∈ caseLabels ∨ op ∈ uncovered := by
  have hall : ∀ op ∈ Op.all, op ∈ caseLabels ∨ op ∈ uncovered := by decide
  exact hall op op.mem_all

variable {op : Op}

/-- The case the switch selects is the instruction the opcode stands for. -/
lemma find?_caseLabels {code : UInt16} (h : decode code = some op) (hop : op ∈ caseLabels) :
    caseLabels.find? (fun op => caseCode op = code) = some op := by
  have hcode := decode_eq_some_iff.1 h
  cases hfind : caseLabels.find? (fun op => caseCode op = code) with
  | none =>
    have hnone := find?_eq_none.1 hfind op hop
    exact absurd (by simpa [caseCode_eq] using hcode) hnone
  | some op' =>
    have hcode' : op'.code = code := by
      have hp := find?_some hfind
      simpa [caseCode_eq] using hp
    rw [← h, decode_eq_some_iff.2 hcode']

/-- An opcode without a case takes the `default`. -/
lemma find?_caseLabels_none {code : UInt16} (h : ∀ op ∈ caseLabels, decode code ≠ some op) :
    caseLabels.find? (fun op => caseCode op = code) = none := by
  refine find?_eq_none.2 fun op hop hcode => h op hop ?_
  exact decode_eq_some_iff.2 (by simpa [caseCode_eq] using hcode)

/-! ## One iteration -/

/-- The interpreter's state at a counter and registers of the machine. -/
def atState (pc : ℕ) (r : Regs) : BpfState := ⟨r.a, r.x, .ofNat pc, r.mem⟩

/-- The iteration does what the outcome of the machine asks for. A counter past the
end is either kept, and stops the loop, or already turned into a denial. -/
inductive Simulates (len : UInt16) : Outcome → Iter → Prop
  | next {pc r} (h : pc ≤ len.toNat) : Simulates len (.next pc r) (.cont (atState pc r))
  | past {pc r} (h : len.toNat ≤ pc) : Simulates len (.next pc r) (.ret (-1))
  | ret {v} : Simulates len (.ret v) (.ret (verdict (some v)))
  | kill : Simulates len .kill (.ret (-1))

lemma ofNat_toNat_of_lt {len : UInt16} {pc : ℕ} (h : pc ≤ len.toNat) :
    (UInt32.ofNat pc).toNat = pc := by
  have := len.toNat_lt
  exact toNat_ofNat_of_lt' (by simp only [size]; omega)

lemma atState_succ (pc : ℕ) (r : Regs) :
    { atState pc r with pc := (atState pc r).pc + 1 } = atState (pc + 1) r := by
  simp [atState, ofNat_add]

variable {len : UInt16} {pc : ℕ} {r : Regs} {insn : SockFilter}

lemma simulates_brk (hpc : pc < len.toNat) (r' : Regs) :
    Simulates len (.next (pc + 1) r') (atState pc r').brk := by
  rw [BpfState.brk, atState_succ]
  exact .next hpc

lemma retVerdict_eq (v : UInt32) : retVerdict v = .ret (verdict (some v)) := by
  by_cases hv : v = seccompRetAllow <;> simp [retVerdict, verdict, hv]

lemma simulates_ret (v : UInt32) : Simulates len (.ret v) (retVerdict v) := by
  rw [retVerdict_eq]
  exact .ret

/-- A jump that the source also computes past the end. -/
lemma simulates_jump (hpc : pc < len.toNat) (off : UInt32)
    (hoff : ¬ (pc + off.toNat) % 2 ^ 32 < len.toNat) :
    Simulates len (.next (pc + 1 + off.toNat) r) (jump (atState pc r) off len) := by
  have hsum : ((atState pc r).pc + off).toNat = (pc + off.toNat) % 2 ^ 32 := by
    rw [UInt32.toNat_add]
    simp only [atState, ofNat_toNat_of_lt (Nat.le_of_lt hpc)]
  have hpast : (atState pc r).pc + off ≥ len.toUInt32 := by
    rw [ge_iff_le, le_iff_toNat_le, hsum, UInt16.toNat_toUInt32]
    omega
  rw [jump, if_pos hpast]
  refine .past ?_
  omega

lemma packet_load (d : SeccompData) (sz : Size) (off : ℕ) : (packet d).load sz off =
      if off + sz.bytes ≤ sizeofSeccompData then some (leWord d.byte off sz.bytes) else none :=
  rfl

/-- A load whose bound check does not wrap. -/
lemma guardedLoad_eq (d : SeccompData) (beyond : ℕ → UInt8) (off : UInt32) (sz : Size)
    (hoff : off.toNat + sz.bytes < 2 ^ 32) :
    guardedLoad (baseByte d beyond) off sz = (packet d).load sz off.toNat := by
  have hbytes : sz.bytes < 2 ^ 32 := by omega
  have hsum : (off + .ofNat sz.bytes).toNat = off.toNat + sz.bytes := by
    rw [UInt32.toNat_add, UInt32.toNat_ofNat_of_lt' hbytes, Nat.mod_eq_of_lt hoff]
  have hbyte : ∀ n off, off + n ≤ sizeofSeccompData →
      leWord (baseByte d beyond) off n = leWord d.byte off n := by
    intro n
    induction n with
    | zero => intro off _; rfl
    | succ n ih =>
      intro off hle
      rw [leWord, leWord, ih (off + 1) (by omega), baseByte, if_pos (by omega)]
  simp only [guardedLoad, hsum, packet_load]
  by_cases hle : off.toNat + sz.bytes ≤ sizeofSeccompData
  · rw [if_neg (by omega), if_pos hle, hbyte _ _ hle]
  · rw [if_pos (by omega), if_neg hle]

lemma simulates_setA (hpc : pc < len.toNat) (o : Option UInt32) : Simulates len (setA pc r o)
      (match o with
        | some v => { atState pc r with A := v }.brk
        | none => .ret (-1)) := by
  cases o with
  | none => exact .kill
  | some v => exact simulates_brk hpc { r with a := v }

lemma scratch_index (k : UInt32) (hk : ¬ k ≥ bpfScratchSize) :
    (k &&& (bpfScratchSize - 1)).toNat = k.toNat ∧ k.toNat < memWords := by
  have hlt : k.toNat < 16 := by
    have := UInt32.lt_iff_toNat_lt.1 (UInt32.not_le.1 hk)
    simpa [bpfScratchSize] using this
  refine ⟨?_, hlt⟩
  have hmask : (bpfScratchSize - 1).toNat = 2 ^ 4 - 1 := by decide
  rw [UInt32.toNat_and, hmask, Nat.and_two_pow_sub_one_eq_mod, Nat.mod_eq_of_lt hlt]

lemma not_lt_memWords (k : UInt32) (hk : k ≥ bpfScratchSize) : ¬ k.toNat < memWords := by
  have := le_iff_toNat_le.1 hk
  simpa [bpfScratchSize, memWords] using this

lemma simulates_store (hpc : pc < len.toNat) (k v : UInt32) : Simulates len (storeMem pc r k v)
      (if k ≥ bpfScratchSize then .ret (-1)
        else { atState pc r with
                scratch := update r.mem (k &&& (bpfScratchSize - 1)).toNat v }.brk) := by
  by_cases hk : k ≥ bpfScratchSize
  · rw [if_pos hk, storeMem, if_neg (not_lt_memWords k hk)]
    exact .kill
  · obtain ⟨hidx, hlt⟩ := scratch_index k hk
    rw [if_neg hk, storeMem, if_pos hlt, hidx]
    exact simulates_brk hpc { r with mem := update r.mem k.toNat v }

/-- The overflow test of the indirect load. -/
lemma overflow_iff (x k : UInt32) : x > 0xFFFFFFFF - k ↔ 2 ^ 32 ≤ x.toNat + k.toNat := by
  have hk := k.toNat_lt
  have hmax : (0xFFFFFFFF : UInt32).toNat = 2 ^ 32 - 1 := by decide
  have hle : k ≤ 0xFFFFFFFF := by
    rw [UInt32.le_iff_toNat_le, hmax]
    omega
  rw [gt_iff_lt, UInt32.lt_iff_toNat_lt, UInt32.toNat_sub_of_le _ _ hle, hmax]
  omega

lemma simulates_ldInd (d : SeccompData) (beyond : ℕ → UInt8) (hpc : pc < len.toNat) {sz : Size}
    (h : ¬ Departs len insn pc r (.ldInd sz)) :
    Simulates len (exec (packet d) insn pc r (.ldInd sz))
      (switchBody (baseByte d beyond) len insn (atState pc r) (.ldInd sz)) := by
  by_cases hsz : sz = .word
  · subst hsz
    by_cases hov : r.x > 0xFFFFFFFF - insn.k
    · have hsum := (overflow_iff _ _).1 hov
      have hload : (packet d).load .word (r.x.toNat + insn.k.toNat) = none := by
        rw [packet_load, if_neg (by simp only [sizeofSeccompData]; omega)]
      have hbody : switchBody (baseByte d beyond) len insn (atState pc r) (.ldInd .word)
          = .ret (-1) := if_pos hov
      rw [hbody, exec, hload]
      exact .kill
    · have hsum : r.x.toNat + insn.k.toNat < 2 ^ 32 := by
        rw [overflow_iff] at hov
        omega
      have hoff : (r.x + insn.k).toNat = r.x.toNat + insn.k.toNat := by
        rw [UInt32.toNat_add, Nat.mod_eq_of_lt hsum]
      have hfit : (r.x + insn.k).toNat + Size.word.bytes < 2 ^ 32 := by
        rw [hoff]
        exact Nat.lt_of_not_le fun hle => h ⟨hsum, hle⟩
      have hov' : ¬ (atState pc r).X > 0xFFFFFFFF - insn.k := hov
      rw [exec, switchBody, if_neg hov', ← hoff, ← guardedLoad_eq d beyond _ _ hfit]
      exact simulates_setA hpc _
  · -- the source has no case for a half-word or a byte
    have hload : (packet d).load sz (r.x.toNat + insn.k.toNat) = none := by
      rw [packet_load, if_neg]
      cases sz <;> first | exact absurd rfl hsz | exact h
    have hbody : switchBody (baseByte d beyond) len insn (atState pc r) (.ldInd sz) =
      .ret (-1) := by
      cases sz <;> first | exact absurd rfl hsz | rfl
    rw [hbody, exec, hload]
    exact .kill

lemma jumpTaken_eq (c : Cond) (a b : UInt32) : jumpTaken c a b = c.eval a b := by
  cases c <;> simp [jumpTaken, Cond.eval, bne, BEq.beq]

lemma operand_atState (src : Src) (k : UInt32) : operand src k (atState pc r) = src.val k r := by
  cases src <;> rfl

/-- Where the ALU departs only by a zero divisor. -/
lemma eval_eq_aluResult {op : AluOp} {a b : UInt32}
    (h : op = .div ∨ op = .mod → b ≠ 0) : op.eval a b = some (aluResult op a b) := by
  cases op with
  | div => simp [AluOp.eval, aluResult, h (.inl rfl)]
  | mod => simp [AluOp.eval, aluResult, h (.inr rfl)]
  | _ => rfl

/-- **Each case of the switch** does what the machine does, unless it departs. -/
lemma switchBody_simulates (d : SeccompData) (beyond : ℕ → UInt8) (hpc : pc < len.toNat)
    (h : ¬ Departs len insn pc r op) :
    Simulates len (exec (packet d) insn pc r op)
      (switchBody (baseByte d beyond) len insn (atState pc r) op) := by
  cases op with
  | ldImm => exact simulates_brk hpc { r with a := insn.k }
  | ldLen => exact simulates_brk hpc { r with a := .ofNat sizeofSeccompData }
  | ldMem =>
    have hk : ¬ insn.k.toNat < memWords := h
    simp only [exec, Regs.scratch, if_neg hk]
    exact .kill
  | ldAbs sz =>
    have hk : insn.k.toNat + sz.bytes < 2 ^ 32 := Nat.lt_of_not_le h
    simp only [switchBody, guardedLoad_eq d beyond insn.k sz hk]
    exact simulates_setA hpc _
  | ldInd sz => exact simulates_ldInd d beyond hpc h
  | ldxImm => exact simulates_brk hpc { r with x := insn.k }
  | ldxLen => exact simulates_brk hpc { r with x := .ofNat sizeofSeccompData }
  | ldxMem =>
    by_cases hk : insn.k ≥ bpfScratchSize
    · simp only [switchBody, exec, Regs.scratch, if_pos hk, if_neg (not_lt_memWords _ hk)]
      exact .kill
    · obtain ⟨hidx, hlt⟩ := scratch_index _ hk
      simp only [switchBody, exec, Regs.scratch, if_neg hk, if_pos hlt, hidx]
      exact simulates_brk hpc { r with x := r.mem insn.k.toNat }
  | ldxMsh =>
    have hk : insn.k.toNat + Size.byte.bytes < 2 ^ 32 := Nat.lt_of_not_le h
    simp only [switchBody, exec, guardedLoad_eq d beyond insn.k .byte hk]
    cases (packet d).load .byte insn.k.toNat with
    | none => exact .kill
    | some b => exact simulates_brk hpc { r with x := 4 * (b &&& 0x0F) }
  | st => exact simulates_store hpc insn.k r.a
  | stx => exact simulates_store hpc insn.k r.x
  | alu op src =>
    have hdiv : op = .div ∨ op = .mod → src.val insn.k r ≠ 0 := by
      rintro (rfl | rfl) <;> exact h
    simp only [switchBody, exec, eval_eq_aluResult hdiv, operand_atState]
    exact simulates_brk hpc { r with a := aluResult op r.a (src.val insn.k r) }
  | neg => exact simulates_brk hpc { r with a := 0 - r.a }
  | ja => exact simulates_jump hpc insn.k h
  | jmp c src =>
    have hoff : ∀ off : UInt8, ¬ pc + off.toNat < len.toNat →
        Simulates len (.next (pc + 1 + off.toNat) r) (jump (atState pc r) off.toUInt32 len) := by
      intro off hoff
      have hsmall : pc + off.toNat < 2 ^ 32 := by
        have := off.toNat_lt
        have := len.toNat_lt
        omega
      have hjump := simulates_jump (r := r) hpc off.toUInt32
      rw [UInt8.toNat_toUInt32, Nat.mod_eq_of_lt hsmall] at hjump
      exact hjump hoff
    rw [switchBody, operand_atState, show (atState pc r).A = r.a from rfl, jumpTaken_eq]
    cases hc : c.eval r.a (src.val insn.k r) with
    | true =>
      simp only [Departs, hc, if_true] at h
      simpa only [exec, hc, if_true] using hoff insn.jt h
    | false =>
      simp only [Departs, hc, Bool.false_eq_true, if_false] at h
      simpa only [exec, hc, Bool.false_eq_true, if_false] using hoff insn.jf h
  | retK => exact simulates_ret insn.k
  | retA => exact simulates_ret r.a
  | tax => exact simulates_brk hpc { r with x := r.a }
  | txa => exact simulates_brk hpc { r with a := r.x }

variable {prog : ℕ → SockFilter}

/-- One iteration of the loop, with the fetch. -/
lemma iteration_simulates (d : SeccompData) (beyond : ℕ → UInt8) (hpc : pc < len.toNat)
    (h : ∀ op, decode (prog pc).code = some op → ¬ Departs len (prog pc) pc r op) :
    Simulates len (Bpf.step prog len.toNat (packet d) pc r)
      (iteration prog len (baseByte d beyond) (atState pc r)) := by
  have hfetch : (atState pc r).pc.toNat = pc := ofNat_toNat_of_lt (Nat.le_of_lt hpc)
  rw [Bpf.step, if_pos hpc, iteration, hfetch]
  cases hop : decode (prog pc).code with
  | none =>
    rw [find?_caseLabels_none (by simp [hop])]
    exact .kill
  | some op =>
    have hsim := switchBody_simulates d beyond hpc (h op hop)
    by_cases hmem : op ∈ caseLabels
    · rwa [find?_caseLabels hop hmem]
    · -- the default denies, as the model of a missing case does
      rw [find?_caseLabels_none fun op' hop' heq => hmem (by
        rw [hop] at heq
        exact some.inj heq ▸ hop')]
      have hdeny : switchBody (baseByte d beyond) len (prog pc) (atState pc r) op = .ret (-1) := by
        have hun := (mem_caseLabels_or_uncovered op).resolve_left hmem
        simp only [uncovered, mem_cons, not_mem_nil, or_false] at hun
        obtain rfl | rfl | rfl := hun <;> rfl
      rwa [hdeny] at hsim

/-! ## The run -/

lemma pc_lt_iff (hpc : pc ≤ len.toNat) : (atState pc r).pc < len.toUInt32 ↔ pc < len.toNat := by
  rw [lt_iff_toNat_lt, UInt16.toNat_toUInt32]
  simp only [atState, ofNat_toNat_of_lt hpc]

/-- From a state of the classic run, the loop returns the verdict of the rest of
the run. The induction is on the instructions that are left. -/
lemma bpfLoop_eq {d : SeccompData} (beyond : ℕ → UInt8) (hconf : Conforms prog len d) (n m : ℕ)
    (pc : ℕ) (r : Regs) (hvisit : visit prog len.toNat (packet d) m = some (pc, r))
    (hpc : pc ≤ len.toNat) (hleft : len.toNat - pc ≤ n) :
    bpfLoop prog len (baseByte d beyond) (n + 1) (atState pc r)
      = some (verdict (evalFrom prog len.toNat (packet d) n pc r)) := by
  induction n generalizing m pc r with
  | zero =>
    rw [bpfLoop, if_neg (by rw [pc_lt_iff hpc]; omega)]
    rfl
  | succ n ih =>
    rw [bpfLoop, evalFrom]
    by_cases hlt : pc < len.toNat
    · rw [if_pos ((pc_lt_iff hpc).2 hlt)]
      have hsim := iteration_simulates (r := r) d beyond hlt (fun op => hconf m pc r op hvisit hlt)
      generalize hout : Bpf.step prog len.toNat (packet d) pc r = out at hsim
      generalize iteration prog len (baseByte d beyond) (atState pc r) = iter at hsim
      cases hsim with
      | @next pc' r' hle =>
        have hlt' := (step_lt hout).1
        exact ih (m + 1) pc' r' (by simp [visit, hvisit, hout]) hle (by omega)
      | past hle =>
        simp only [evalFrom_of_le hle]
        rfl
      | ret => rfl
      | kill => rfl
    · rw [if_neg (by rwa [pc_lt_iff hpc]), Bpf.step, if_neg hlt]
      rfl

/-- **Where the filter semantics is the classic one.** On a non-empty program whose
classic run meets no departing instruction, `seccomp_run_bpf` returns, and its
verdict is that of the classic machine. -/
theorem seccompRunBpf_eq_classicVerdict (prog : ℕ → SockFilter) (len : UInt16) (d : SeccompData)
    (beyond : ℕ → UInt8) (hlen : len ≠ 0) (hconf : Conforms prog len d) :
    ∃ fuel, seccompRunBpf fuel (some prog) len (some d) beyond
      = some (classicVerdict prog len d) := by
  refine ⟨len.toNat + 1, ?_⟩
  rw [seccompRunBpf, if_neg hlen]
  exact bpfLoop_eq beyond hconf len.toNat 0 0 .init rfl (Nat.zero_le _) (Nat.sub_le _ _)

instance (len : UInt16) (insn : SockFilter) (pc : ℕ) (r : Regs) (op : Op) :
    Decidable (Departs len insn pc r op) := by
  unfold Departs
  split <;> infer_instance

/-- A check of `Conforms` for a run that ends within `N` instructions. -/
lemma conforms_of_visit {d : SeccompData} (N : ℕ)
    (hend : (visit prog len.toNat (packet d) N).isNone)
    (h : ∀ n < N, ∀ s ∈ visit prog len.toNat (packet d) n, ∀ op ∈ decode (prog s.1).code,
      ¬ Departs len (prog s.1) s.1 s.2 op) : Conforms prog len d := by
  intro n pc r op hvisit _ hop
  by_cases hn : n < N
  · exact h n hn (pc, r) hvisit op hop
  · have hnone := visit_none_of_le (Nat.le_of_not_lt hn) (isNone_iff_eq_none.1 hend)
    simp [hnone] at hvisit

/-- A program as a list of instructions. -/
def progOf (is : List SockFilter) (i : ℕ) : SockFilter := is.getD i ⟨0xFF, 0, 0, 0⟩

/-- A call of system call `nr` without arguments. -/
def callOf (nr : Int32) : SeccompData := checkData nr fun _ => 0

/-- A filter without jumps: it returns `nr / 256` with the bits of the allowing value set. -/
def straightProg : List SockFilter :=
  [⟨0x20, 0, 0, 0⟩, ⟨0x34, 0, 0, 256⟩, ⟨0x44, 0, 0, 0x7FFF0000⟩, ⟨0x16, 0, 0, 0⟩]

theorem seccompRunBpf_straightProg :
    Conforms (progOf straightProg) 4 (callOf 59) ∧
    ∃ fuel, seccompRunBpf fuel (some (progOf straightProg)) 4 (some (callOf 59)) (fun _ => 0)
      = some (classicVerdict (progOf straightProg) 4 (callOf 59)) := by
  have hconf : Conforms (progOf straightProg) 4 (callOf 59) :=
    conforms_of_visit 4 (by decide) (by decide)
  exact ⟨hconf, seccompRunBpf_eq_classicVerdict _ 4 _ _ (by decide) hconf⟩

/-! ## A filter whose jumps are one short -/

/-- More fuel does not change a returned verdict. -/
lemma bpfLoop_mono {base : ℕ → UInt8} {fuel fuel' : ℕ} {s : BpfState} {v : ℤ} (hle : fuel ≤ fuel')
    (h : bpfLoop prog len base fuel s = some v) : bpfLoop prog len base fuel' s = some v := by
  induction fuel generalizing fuel' s with
  | zero => cases h
  | succ fuel ih =>
    obtain ⟨fuel', rfl⟩ : ∃ k, fuel' = k + 1 := ⟨fuel' - 1, by omega⟩
    rw [bpfLoop] at h ⊢
    split
    · next hlt =>
      rw [if_pos hlt] at h
      cases hiter : iteration prog len base s with
      | cont _ =>
        simp only [hiter] at h ⊢
        exact ih (by omega) h
      | ret _ => simpa only [hiter] using h
    · next hlt => rwa [if_neg hlt] at h

/-- Two runs of the interpreter that return agree. -/
lemma seccompRunBpf_unique {prog : Option (ℕ → SockFilter)} {data : Option SeccompData}
    {beyond : ℕ → UInt8} {fuel fuel' : ℕ} {v v' : ℤ}
    (h : seccompRunBpf fuel prog len data beyond = some v)
    (h' : seccompRunBpf fuel' prog len data beyond = some v') : v = v' := by
  simp only [seccompRunBpf] at h h'
  split at h
  · simp_all
  split at h
  · simp_all
  split at h
  · simp_all
  · rename_i hlen _ _
    simp only [if_neg hlen] at h'
    have hmax := bpfLoop_mono (Nat.le_max_left fuel fuel') h
    rw [bpfLoop_mono (Nat.le_max_right fuel fuel') h'] at hmax
    exact (some.inj hmax).symm

/-- Load the call number; jump over the allowing return when it is 59 (`execve`). -/
def denyExecve : List SockFilter :=
  [⟨0x20, 0, 0, 0⟩, ⟨0x15, 1, 2, 59⟩, ⟨0x06, 0, 0, 0x7FFF0000⟩, ⟨0x06, 0, 0, 0⟩,
    ⟨0x06, 0, 0, 0x7FFF0000⟩]

/-- `denyExecve` with every number allowed by the bitmap. -/
def denyExecveFilter : SeccompFilter := ⟨fun _ => 0xFFFFFFFFFFFFFFFF, 5, progOf denyExecve⟩

/-- The classic machine denies `execve` under this accepted filter; the
interpreter lands one instruction early, on the allowing return. -/
theorem denyExecve_allowed :
    (seccompSetFilter (some none) (some denyExecveFilter) true).1 = 0 ∧
    ¬ ∃ fuel, seccompRunBpf fuel (some denyExecveFilter.bpfProg) denyExecveFilter.bpfLen
        (some (callOf 59)) (fun _ => 0)
      = some (classicVerdict denyExecveFilter.bpfProg denyExecveFilter.bpfLen (callOf 59)) := by
  refine ⟨by decide, ?_⟩
  rintro ⟨fuel, h⟩
  have hallow : seccompRunBpf 5 (some denyExecveFilter.bpfProg) denyExecveFilter.bpfLen
      (some (callOf 59)) (fun _ => 0) = some 0 := by decide
  have heq := seccompRunBpf_unique hallow h
  cases heq

/-! ## How long a program runs -/

/-- Instructions that the loop executes within its fuel. -/
def executed (prog : ℕ → SockFilter) (len : UInt16) (base : ℕ → UInt8) : ℕ → BpfState → ℕ
  | 0, _ => 0
  | fuel + 1, s =>
    if s.pc < len.toUInt32 then
      match iteration prog len base s with
      | .cont s' => executed prog len base fuel s' + 1
      | .ret _ => 1
    else 0

/-- `seccomp_run_bpf` returns after at most `BPF_MAX_EXEC_INSNS` instructions. -/
def Halts (prog : ℕ → SockFilter) (len : UInt16) (d : SeccompData) (beyond : ℕ → UInt8) : Prop :=
  ∃ fuel v, seccompRunBpf fuel (some prog) len (some d) beyond = some v ∧
    executed prog len (baseByte d beyond) fuel bpfInit ≤ 4096

/-- The state before an iteration of the loop, as long as there is one. -/
def stateAt (prog : ℕ → SockFilter) (len : UInt16) (base : ℕ → UInt8) : ℕ → Option BpfState
  | 0 => some bpfInit
  | n + 1 =>
    match stateAt prog len base n with
    | none => none
    | some s =>
      if s.pc < len.toUInt32 then
        match iteration prog len base s with
        | .cont s' => some s'
        | .ret _ => none
      else none

section

variable (prog : ℕ → SockFilter) (len : UInt16) (base : ℕ → UInt8)

/-- No jump that the run takes leads to itself or to an instruction before it. -/
def Onward : Prop :=
  ∀ n s s', stateAt prog len base n = some s → stateAt prog len base (n + 1) = some s' →
    s.pc < s'.pc

/-- The run takes a jump to itself. -/
def StandsStill : Prop :=
  ∃ n s s', stateAt prog len base n = some s ∧ stateAt prog len base (n + 1) = some s' ∧
    s'.pc = s.pc

end

variable {base : ℕ → UInt8} {s s' : BpfState} {m n : ℕ}

lemma stateAt_succ (hs : stateAt prog len base m = some s) (hlt : s.pc < len.toUInt32)
    (hiter : iteration prog len base s = .cont s') :
    stateAt prog len base (m + 1) = some s' := by
  simp only [stateAt, hs, hlt, if_true, hiter]

lemma exists_of_stateAt_succ (h : stateAt prog len base (m + 1) = some s') :
    ∃ s, stateAt prog len base m = some s ∧ s.pc < len.toUInt32 ∧
      iteration prog len base s = .cont s' := by
  simp only [stateAt] at h
  split at h
  · cases h
  · next s hs =>
    split at h
    · next hlt =>
      split at h
      · next hiter =>
        cases h
        exact ⟨s, hs, hlt, hiter⟩
      · cases h
    · cases h

/-- With jumps that go forward, the instructions that are left bound the run. -/
lemma bpfLoop_halts (hf : Onward prog len base) (hs : stateAt prog len base m = some s)
    (hleft : len.toNat - s.pc.toNat ≤ n) :
    ∃ v, bpfLoop prog len base (n + 1) s = some v ∧ executed prog len base (n + 1) s ≤ n := by
  induction n generalizing s m with
  | zero =>
    have hend : ¬ s.pc < len.toUInt32 := by
      rw [lt_iff_toNat_lt, UInt16.toNat_toUInt32]
      omega
    exact ⟨-1, by rw [bpfLoop, if_neg hend], by rw [executed, if_neg hend]⟩
  | succ n ih =>
    rw [bpfLoop, executed]
    by_cases hlt : s.pc < len.toUInt32
    · rw [if_pos hlt, if_pos hlt]
      cases hiter : iteration prog len base s with
      | ret v => exact ⟨v, rfl, by simp⟩
      | cont s' =>
        have hs' := stateAt_succ hs hlt hiter
        have hmove := hf m s s' hs hs'
        rw [UInt32.lt_iff_toNat_lt] at hmove
        rw [lt_iff_toNat_lt, UInt16.toNat_toUInt32] at hlt
        obtain ⟨v, hrun, hle⟩ := ih hs' (by omega)
        exact ⟨v, hrun, Nat.succ_le_succ hle⟩
    · exact ⟨-1, if_neg hlt, by rw [if_neg hlt]; exact Nat.zero_le _⟩

/-- An iteration that leaves `pc` alone is a jump to itself, and changes nothing. -/
lemma switchBody_still (h : switchBody base len insn s op = .cont s') (hpc : s'.pc = s.pc) :
    s' = s := by
  have hone : s.pc + 1 ≠ s.pc := by simp
  cases op with
  | ja =>
    simp only [switchBody, jump] at h
    split at h <;> cases h
    rw [show s.pc + insn.k = s.pc from hpc]
  | jmp c _ =>
    simp only [switchBody, jump] at h
    split at h <;> split at h <;> cases h
    · rw [show s.pc + insn.jt.toUInt32 = s.pc from hpc]
    · rw [show s.pc + insn.jf.toUInt32 = s.pc from hpc]
  | ldInd sz =>
    cases sz <;> simp only [switchBody, BpfState.brk] at h
    (repeat' split at h) <;> cases h
    exact absurd hpc hone
    all_goals cases h
  | _ =>
    simp only [switchBody, BpfState.brk, retVerdict] at h
    (repeat' split at h) <;> cases h <;> exact absurd hpc hone

/-- The loop from the start comes to the states of the run. -/
lemma bpfLoop_add (hs : stateAt prog len base m = some s) (fuel : ℕ) :
    bpfLoop prog len base (m + fuel) bpfInit = bpfLoop prog len base fuel s := by
  induction m generalizing s fuel with
  | zero =>
    cases hs
    rw [Nat.zero_add]
  | succ m ih =>
    obtain ⟨s₀, hs₀, hlt, hiter⟩ := exists_of_stateAt_succ hs
    rw [Nat.add_right_comm, Nat.add_assoc, ih hs₀, bpfLoop, if_pos hlt, hiter]

/-- After a jump to itself the loop never ends. -/
lemma StandsStill.bpfLoop_eq_none (h : StandsStill prog len base) (fuel : ℕ) :
    bpfLoop prog len base fuel bpfInit = none := by
  obtain ⟨m, s, s', hs, hs', hpc⟩ := h
  obtain ⟨_, hs₀, hlt, hiter⟩ := exists_of_stateAt_succ hs'
  cases hs.symm.trans hs₀
  have hsame : s' = s := by
    have hbody := hiter
    simp only [iteration] at hbody
    split at hbody
    · exact switchBody_still hbody hpc
    · cases hbody
  rw [hsame] at hiter
  have hloop : ∀ fuel, bpfLoop prog len base fuel s = none := by
    intro fuel
    induction fuel with
    | zero => rfl
    | succ fuel ih =>
      rwa [bpfLoop, if_pos hlt, hiter]
  cases hrun : bpfLoop prog len base fuel bpfInit with
  | none => rfl
  | some v =>
    have hmore := bpfLoop_mono (Nat.le_add_left fuel m) hrun
    simp [bpfLoop_add hs, hloop] at hmore

/-- A check of `Onward` for a run that ends within `N` iterations. -/
lemma onward_of_stateAt (N : ℕ) (hend : (stateAt prog len base N).isNone)
    (h : ∀ n < N, ∀ s ∈ stateAt prog len base n, ∀ s' ∈ stateAt prog len base (n + 1),
      s.pc < s'.pc) : Onward prog len base := by
  have hnone : ∀ k, stateAt prog len base (N + k) = none := by
    intro k
    induction k with
    | zero => exact isNone_iff_eq_none.1 hend
    | succ k ih => rw [← Nat.add_assoc, stateAt, ih]
  intro n s s' hs hs'
  by_cases hn : n < N
  · exact h n hn s hs s' hs'
  · rw [← Nat.add_sub_of_le (Nat.le_of_not_lt hn), hnone] at hs
    cases hs

/-- Allow every call but `execve`, at which the jump leads to itself. -/
def execveLoop : ℕ → SockFilter :=
  progOf [⟨0x20, 0, 0, 0⟩, ⟨0x15, 0, 1, 59⟩, ⟨0x06, 0, 0, 0x7FFF0000⟩]

/-- A jump to itself. -/
def selfJump : SeccompFilter := ⟨fun _ => 0xFFFFFFFFFFFFFFFF, 1, progOf [⟨0x05, 0, 0, 0⟩]⟩

end Aurora.Seccomp
