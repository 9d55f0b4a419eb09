import Mathlib.Data.Nat.Basic
import Mathlib.Data.Nat.Bits
import Mathlib.Logic.Function.Basic

/-!
# The classic BPF machine

Two 32-bit registers, sixteen words of scratch memory and a forward-only program
counter, run against a read-only packet in host byte order. The program counter is
a natural number, so an offset is never reduced: a jump either lands inside the
program or ends the run. Every instruction advances it by at least one, and a
program therefore runs at most as many steps as it is long.

## Main definitions

* `Op`, `Op.code`, `decode`: the instruction set and its 16-bit encoding.
* `exec`: one instruction; `step`: fetch and execute.
* `visit n`: program counter and registers after `n` instructions.
* `eval`: the value a program returns, `none` when it is killed.
-/

namespace Aurora.Lib.Bpf

variable {len pc : ℕ} {p : Packet} {prog : ℕ → Insn}

/-- Width of a load. -/
inductive Size
  | word | half | byte
  deriving DecidableEq, Repr

/-- Number of bytes a load reads. -/
def Size.bytes : Size → ℕ
  | .word => 4
  | .half => 2
  | .byte => 1

/-- Second operand: the immediate or the index register. -/
inductive Src
  | k | x
  deriving DecidableEq, Repr

inductive AluOp
  | add | sub | mul | div | or | and | lsh | rsh | mod | xor
  deriving DecidableEq, Repr

inductive Cond
  | jeq | jgt | jge | jset
  deriving DecidableEq, Repr

/-- The instruction set. -/
inductive Op
  | ldImm | ldLen | ldMem | ldAbs (sz : Size) | ldInd (sz : Size)
  | ldxImm | ldxLen | ldxMem | ldxMsh
  | st | stx
  | alu (op : AluOp) (src : Src) | neg
  | ja | jmp (c : Cond) (src : Src)
  | retK | retA | tax | txa
  deriving DecidableEq, Repr

/-! ## Encoding -/

def Size.code : Size → UInt16
  | .word => 0x00
  | .half => 0x08
  | .byte => 0x10

def Src.code : Src → UInt16
  | .k => 0x00
  | .x => 0x08

def AluOp.code : AluOp → UInt16
  | .add => 0x00
  | .sub => 0x10
  | .mul => 0x20
  | .div => 0x30
  | .or => 0x40
  | .and => 0x50
  | .lsh => 0x60
  | .rsh => 0x70
  | .mod => 0x90
  | .xor => 0xA0

def Cond.code : Cond → UInt16
  | .jeq => 0x10
  | .jgt => 0x20
  | .jge => 0x30
  | .jset => 0x40

/-- The opcode of an instruction: class, size, mode, operation and source. -/
def Op.code : Op → UInt16
  | .ldImm => 0x00
  | .ldLen => 0x80
  | .ldMem => 0x60
  | .ldAbs sz => 0x20 ||| sz.code
  | .ldInd sz => 0x40 ||| sz.code
  | .ldxImm => 0x01
  | .ldxLen => 0x81
  | .ldxMem => 0x61
  | .ldxMsh => 0xB1
  | .st => 0x02
  | .stx => 0x03
  | .alu op src => 0x04 ||| op.code ||| src.code
  | .neg => 0x84
  | .ja => 0x05
  | .jmp c src => 0x05 ||| c.code ||| src.code
  | .retK => 0x06
  | .retA => 0x16
  | .tax => 0x07
  | .txa => 0x87

def Size.all : List Size := [.word, .half, .byte]

def Src.all : List Src := [.k, .x]

def AluOp.all : List AluOp := [.add, .sub, .mul, .div, .or, .and, .lsh, .rsh, .mod, .xor]

def Cond.all : List Cond := [.jeq, .jgt, .jge, .jset]

/-- Every instruction of the set. -/
def Op.all : List Op :=
  [.ldImm, .ldLen, .ldMem, .ldxImm, .ldxLen, .ldxMem, .ldxMsh, .st, .stx, .neg, .ja, .retK,
    .retA, .tax, .txa]
  ++ Size.all.map .ldAbs ++ Size.all.map .ldInd
  ++ AluOp.all.flatMap (fun op => Src.all.map (.alu op))
  ++ Cond.all.flatMap (fun c => Src.all.map (.jmp c))

/-- The instruction an opcode stands for. -/
def decode (code : UInt16) : Option Op := Op.all.find? (fun op => op.code = code)

lemma Op.mem_all (op : Op) : op ∈ Op.all := by
  cases op with
  | ldAbs sz => cases sz <;> decide
  | ldInd sz => cases sz <;> decide
  | alu op src => cases op <;> cases src <;> decide
  | jmp c src => cases c <;> cases src <;> decide
  | _ => decide

/-- No two instructions share an opcode. -/
lemma decode_code (op : Op) : decode op.code = some op := by
  have hall : ∀ op ∈ Op.all, decode op.code = some op := by decide
  exact hall op op.mem_all

/-- An opcode decodes to the instruction it encodes, and to no other. -/
lemma decode_eq_some_iff {code : UInt16} {op : Op} : decode code = some op ↔ op.code = code := by
  constructor
  · intro h
    simpa using List.find?_some h
  · rintro rfl
    exact decode_code op

/-! ## Execution -/

/-- An encoded instruction. -/
structure Insn where
  code : UInt16
  jt : UInt8
  jf : UInt8
  k : UInt32
  deriving DecidableEq, Repr

/-- A read-only packet; `byte` is meaningful below `len`. -/
structure Packet where
  len : ℕ
  byte : ℕ → UInt8

/-- Number of words of scratch memory. -/
def memWords : ℕ := 16

/-- The registers and the scratch memory. -/
structure Regs where
  a : UInt32
  x : UInt32
  mem : ℕ → UInt32

/-- All registers and the scratch memory start at zero. -/
def Regs.init : Regs := ⟨0, 0, fun _ => 0⟩

/-- The little-endian value of `n` bytes from `off`. -/
def leWord (byte : ℕ → UInt8) (off : ℕ) : ℕ → UInt32
  | 0 => 0
  | n + 1 => (byte off).toUInt32 ||| (leWord byte (off + 1) n <<< 8)

/-- A load that stays inside the packet. -/
def Packet.load (p : Packet) (sz : Size) (off : ℕ) : Option UInt32 :=
  if off + sz.bytes ≤ p.len then some (leWord p.byte off sz.bytes) else none

/-- The value of the second operand. -/
def Src.val (src : Src) (k : UInt32) (r : Regs) : UInt32 :=
  match src with
  | .k => k
  | .x => r.x

/-- 32-bit arithmetic; division by zero has no value. -/
def AluOp.eval (op : AluOp) (a b : UInt32) : Option UInt32 :=
  match op with
  | .add => some (a + b)
  | .sub => some (a - b)
  | .mul => some (a * b)
  | .div => if b = 0 then none else some (a / b)
  | .or => some (a ||| b)
  | .and => some (a &&& b)
  | .lsh => some (if b < 32 then a <<< b else 0)
  | .rsh => some (if b < 32 then a >>> b else 0)
  | .mod => if b = 0 then none else some (a % b)
  | .xor => some (a ^^^ b)

def Cond.eval (c : Cond) (a b : UInt32) : Bool :=
  match c with
  | .jeq => a = b
  | .jgt => b < a
  | .jge => b ≤ a
  | .jset => a &&& b ≠ 0

/-- How an instruction ends. -/
inductive Outcome
  | next (pc : ℕ) (r : Regs)
  | ret (v : UInt32)
  | kill

/-- Load into the accumulator and fall through, or kill. -/
def setA (pc : ℕ) (r : Regs) : Option UInt32 → Outcome
  | some v => .next (pc + 1) { r with a := v }
  | none => .kill

/-- Load into the index register and fall through, or kill. -/
def setX (pc : ℕ) (r : Regs) : Option UInt32 → Outcome
  | some v => .next (pc + 1) { r with x := v }
  | none => .kill

/-- A scratch word. -/
def Regs.scratch (r : Regs) (k : UInt32) : Option UInt32 :=
  if k.toNat < memWords then some (r.mem k.toNat) else none

/-- Store to a scratch word and fall through, or kill. -/
def storeMem (pc : ℕ) (r : Regs) (k : UInt32) (v : UInt32) : Outcome :=
  if k.toNat < memWords then .next (pc + 1) { r with mem := Function.update r.mem k.toNat v }
  else .kill

/-- One instruction at `pc`. -/
def exec (p : Packet) (i : Insn) (pc : ℕ) (r : Regs) : Op → Outcome
  | .ldImm => setA pc r (some i.k)
  | .ldLen => setA pc r (some (.ofNat p.len))
  | .ldMem => setA pc r (r.scratch i.k)
  | .ldAbs sz => setA pc r (p.load sz i.k.toNat)
  | .ldInd sz => setA pc r (p.load sz (r.x.toNat + i.k.toNat))
  | .ldxImm => setX pc r (some i.k)
  | .ldxLen => setX pc r (some (.ofNat p.len))
  | .ldxMem => setX pc r (r.scratch i.k)
  | .ldxMsh => setX pc r ((p.load .byte i.k.toNat).map fun b => 4 * (b &&& 0x0F))
  | .st => storeMem pc r i.k r.a
  | .stx => storeMem pc r i.k r.x
  | .alu op src => setA pc r (op.eval r.a (src.val i.k r))
  | .neg => setA pc r (some (0 - r.a))
  | .ja => .next (pc + 1 + i.k.toNat) r
  | .jmp c src =>
    .next (pc + 1 + (if c.eval r.a (src.val i.k r) then i.jt else i.jf).toNat) r
  | .retK => .ret i.k
  | .retA => .ret r.a
  | .tax => setX pc r (some r.a)
  | .txa => setA pc r (some r.x)

/-- Fetch and execute; a counter outside the program or an unknown opcode kills. -/
def step (prog : ℕ → Insn) (len : ℕ) (p : Packet) (pc : ℕ) (r : Regs) : Outcome :=
  if pc < len then
    match decode (prog pc).code with
    | some op => exec p (prog pc) pc r op
    | none => .kill
  else .kill

/-- The counter and the registers after `n` instructions, while the run lasts. -/
def visit (prog : ℕ → Insn) (len : ℕ) (p : Packet) : ℕ → Option (ℕ × Regs)
  | 0 => some (0, .init)
  | n + 1 => (visit prog len p n).bind fun (pc, r) =>
    match step prog len p pc r with
    | .next pc' r' => some (pc', r')
    | .ret _ => none
    | .kill => none

/-- The value returned within `fuel` instructions from `pc`. -/
def evalFrom (prog : ℕ → Insn) (len : ℕ) (p : Packet) : ℕ → ℕ → Regs → Option UInt32
  | 0, _, _ => none
  | fuel + 1, pc, r =>
    match step prog len p pc r with
    | .next pc' r' => evalFrom prog len p fuel pc' r'
    | .ret v => some v
    | .kill => none

/-- The value a program returns on a packet, `none` when it is killed. -/
def eval (prog : ℕ → Insn) (len : ℕ) (p : Packet) : Option UInt32 :=
  evalFrom prog len p len 0 .init

/-! ## The counter moves forward -/

lemma exec_lt {i : Insn} {pc' : ℕ} {r r' : Regs} {op : Op}
    (h : exec p i pc r op = .next pc' r') : pc < pc' := by
  have hsetA : ∀ o, setA pc r o = .next pc' r' → pc < pc' := by
    intro o ho
    cases o with
    | none => cases ho
    | some v => cases ho; exact Nat.lt_succ_self pc
  have hsetX : ∀ o, setX pc r o = .next pc' r' → pc < pc' := by
    intro o ho
    cases o with
    | none => cases ho
    | some v => cases ho; exact Nat.lt_succ_self pc
  have hstore : ∀ v, storeMem pc r i.k v = .next pc' r' → pc < pc' := by
    intro v hv
    simp only [storeMem] at hv
    split at hv <;> cases hv
    exact Nat.lt_succ_self pc
  cases op with
  | st => exact hstore _ h
  | stx => exact hstore _ h
  | ja => cases h; omega
  | jmp c _ => cases h; omega
  | retK => cases h
  | retA => cases h
  | ldImm => exact hsetA (some _) h
  | ldLen => exact hsetA (some _) h
  | ldxImm => exact hsetX (some _) h
  | ldxLen => exact hsetX (some _) h
  | ldxMem => exact hsetX _ h
  | ldxMsh => exact hsetX _ h
  | neg => exact hsetA (some _) h
  | tax => exact hsetX (some _) h
  | txa => exact hsetA (some _) h
  | _ => exact hsetA _ h

lemma step_lt {pc' : ℕ} {r r' : Regs}
    (h : step prog len p pc r = .next pc' r') : pc < pc' ∧ pc < len := by
  simp only [step] at h
  split at h
  · next hpc =>
    split at h
    · exact ⟨exec_lt h, hpc⟩
    · cases h
  · cases h

/-- A counter past the end of the program never returns a value. -/
lemma evalFrom_of_le (h : len ≤ pc)
    (fuel : ℕ) (r : Regs) : evalFrom prog len p fuel pc r = none := by
  cases fuel with
  | zero => rfl
  | succ fuel => rw [evalFrom, step, if_neg (Nat.not_lt_of_le h)]

/-- A run that has ended stays ended. -/
lemma visit_none_of_le {m n : ℕ} (hmn : m ≤ n)
    (h : visit prog len p m = none) : visit prog len p n = none := by
  induction n, hmn using Nat.le_induction with
  | base => exact h
  | succ n hmn ih => rw [visit, ih, Option.bind_none]

end Aurora.Lib.Bpf
