import Aurora.Kernel.Task
import Aurora.Lib.ClassicBpf

/-!
# System call filtering (`seccomp.c`)

The filter of a task: a 256-bit bitmap of allowed system calls and an optional BPF
program run by `seccomp_run_bpf`. The interpreter is modelled loop iteration by
loop iteration on 32-bit registers; it can loop forever, so it takes fuel, and
`none` is a call that has not returned.

The interpreter reads the filtered structure through a byte pointer. Its bound
checks are 32-bit sums, so an offset close to `2^32` passes them; the bytes such a
load reads are modelled as kernel memory `beyond` the structure.

## Main definitions

* `SockFilter`, `SeccompData`, `SeccompFilter`: the structures of `seccomp.h`.
* `caseLabels`, `caseCode`, `switchBody`: the cases of the interpreter's switch.
* `seccompRunBpf`, `seccompSetFilter`, `seccompCheck`.
-/

namespace Aurora.Seccomp

open Lib.Bpf

/-! ## `seccomp.h` -/

def bpfLd : UInt16 := 0x00
def bpfLdx : UInt16 := 0x01
def bpfSt : UInt16 := 0x02
def bpfStx : UInt16 := 0x03
def bpfAlu : UInt16 := 0x04
def bpfJmp : UInt16 := 0x05
def bpfRet : UInt16 := 0x06
def bpfMisc : UInt16 := 0x07

def bpfImm : UInt16 := 0x00
def bpfAbs : UInt16 := 0x20
def bpfInd : UInt16 := 0x40
def bpfMem : UInt16 := 0x60
def bpfLen : UInt16 := 0x80
def bpfMsh : UInt16 := 0xA0

def bpfAdd : UInt16 := 0x00
def bpfSub : UInt16 := 0x10
def bpfMul : UInt16 := 0x20
def bpfDiv : UInt16 := 0x30
def bpfOr : UInt16 := 0x40
def bpfAnd : UInt16 := 0x50
def bpfLsh : UInt16 := 0x60
def bpfRsh : UInt16 := 0x70
def bpfNeg : UInt16 := 0x80
def bpfMod : UInt16 := 0x90
def bpfXor : UInt16 := 0xA0

def bpfJa : UInt16 := 0x00
def bpfJeq : UInt16 := 0x10
def bpfJgt : UInt16 := 0x20
def bpfJge : UInt16 := 0x30
def bpfJset : UInt16 := 0x40

def bpfK : UInt16 := 0x00
def bpfX : UInt16 := 0x08

def bpfW : UInt16 := 0x00
def bpfH : UInt16 := 0x08
def bpfB : UInt16 := 0x10
def bpfA : UInt16 := 0x10
def bpfTax : UInt16 := 0x00
def bpfTxa : UInt16 := 0x80

def seccompRetAllow : UInt32 := 0x7FFF0000
def auditArchX8664 : UInt32 := 0xC000003E
def seccompMaxBpfLen : UInt16 := 4096
def bpfScratchSize : UInt32 := 16

/-- `struct sock_filter`. -/
abbrev SockFilter := Insn

/-- `struct seccomp_data`. -/
structure SeccompData where
  nr : Int32
  arch : UInt32
  instructionPointer : UInt64
  args : Fin 6 → UInt64

/-- `sizeof(struct seccomp_data)`. -/
def sizeofSeccompData : ℕ := 64

/-- `struct seccomp_filter`. -/
structure SeccompFilter where
  syscallMask : Fin 4 → UInt64
  bpfLen : UInt16
  bpfProg : ℕ → SockFilter

/-- Byte `i` of a little-endian word. -/
def byteOf (v : UInt64) (i : ℕ) : UInt8 := (v >>> (.ofNat (8 * i))).toUInt8

/-- Byte `i` of the structure as it lies in memory. -/
def SeccompData.byte (d : SeccompData) (i : ℕ) : UInt8 :=
  if i < 4 then byteOf d.nr.toUInt32.toUInt64 i
  else if i < 8 then byteOf d.arch.toUInt64 (i - 4)
  else if i < 16 then byteOf d.instructionPointer (i - 8)
  else byteOf (d.args (.ofNat 6 ((i - 16) / 8))) (i % 8)

/-- The byte at `(const uint8_t *)data + i`. -/
def baseByte (d : SeccompData) (beyond : ℕ → UInt8) (i : ℕ) : UInt8 :=
  if i < sizeofSeccompData then d.byte i else beyond i

/-! ## The interpreter -/

/-- The locals of `seccomp_run_bpf`. -/
structure BpfState where
  A : UInt32
  X : UInt32
  pc : UInt32
  scratch : ℕ → UInt32

/-- How one iteration of the loop ends. -/
inductive Iter
  | cont (s : BpfState)
  | ret (r : ℤ)

def sizeCode : Size → UInt16
  | .word => bpfW
  | .half => bpfH
  | .byte => bpfB

def srcCode : Src → UInt16
  | .k => bpfK
  | .x => bpfX

def aluCode : AluOp → UInt16
  | .add => bpfAdd
  | .sub => bpfSub
  | .mul => bpfMul
  | .div => bpfDiv
  | .or => bpfOr
  | .and => bpfAnd
  | .lsh => bpfLsh
  | .rsh => bpfRsh
  | .mod => bpfMod
  | .xor => bpfXor

def condCode : Cond → UInt16
  | .jeq => bpfJeq
  | .jgt => bpfJgt
  | .jge => bpfJge
  | .jset => bpfJset

/-- The constant of a case label. -/
def caseCode : Op → UInt16
  | .ldImm => bpfLd ||| bpfW ||| bpfImm
  | .ldLen => bpfLd ||| bpfW ||| bpfLen
  | .ldMem => bpfLd ||| bpfW ||| bpfMem
  | .ldAbs sz => bpfLd ||| sizeCode sz ||| bpfAbs
  | .ldInd sz => bpfLd ||| sizeCode sz ||| bpfInd
  | .ldxImm => bpfLdx ||| bpfW ||| bpfImm
  | .ldxLen => bpfLdx ||| bpfW ||| bpfLen
  | .ldxMem => bpfLdx ||| bpfW ||| bpfMem
  | .ldxMsh => bpfLdx ||| bpfB ||| bpfMsh
  | .st => bpfSt
  | .stx => bpfStx
  | .alu op src => bpfAlu ||| aluCode op ||| srcCode src
  | .neg => bpfAlu ||| bpfNeg
  | .ja => bpfJmp ||| bpfJa
  | .jmp c src => bpfJmp ||| condCode c ||| srcCode src
  | .retK => bpfRet ||| bpfK
  | .retA => bpfRet ||| bpfA
  | .tax => bpfMisc ||| bpfTax
  | .txa => bpfMisc ||| bpfTxa

/-- The case labels of the switch, in the order of the source. -/
def caseLabels : List Op :=
  [.ldAbs .word, .ldLen, .ldImm, .ldAbs .half, .ldAbs .byte, .ldInd .word,
    .ldxImm, .ldxMem, .ldxLen, .ldxMsh,
    .alu .add .k, .alu .sub .k, .alu .mul .k, .alu .div .k, .alu .or .k, .alu .and .k,
    .alu .lsh .k, .alu .rsh .k, .alu .mod .k, .alu .xor .k, .neg,
    .alu .add .x, .alu .sub .x, .alu .mul .x, .alu .div .x, .alu .or .x, .alu .and .x,
    .alu .lsh .x, .alu .rsh .x, .alu .mod .x, .alu .xor .x,
    .ja, .jmp .jeq .k, .jmp .jgt .k, .jmp .jge .k, .jmp .jset .k,
    .jmp .jeq .x, .jmp .jgt .x, .jmp .jge .x, .jmp .jset .x,
    .retK, .retA, .tax, .txa, .st, .stx]

/-- `A op= b` as the ALU cases compute it. -/
def aluResult (op : AluOp) (A b : UInt32) : UInt32 :=
  match op with
  | .add => A + b
  | .sub => A - b
  | .mul => A * b
  | .div => if b ≠ 0 then A / b else 0
  | .or => A ||| b
  | .and => A &&& b
  | .lsh => if b < 32 then A <<< b else 0
  | .rsh => if b < 32 then A >>> b else 0
  | .mod => if b ≠ 0 then A % b else 0
  | .xor => A ^^^ b

/-- The condition of a jump case. -/
def jumpTaken (c : Cond) (A b : UInt32) : Bool :=
  match c with
  | .jeq => A == b
  | .jgt => A > b
  | .jge => A ≥ b
  | .jset => A &&& b != 0

/-- The operand a case uses: `k` or `X`. -/
def operand (src : Src) (k : UInt32) (s : BpfState) : UInt32 :=
  match src with
  | .k => k
  | .x => s.X

/-- `break`: the iteration ends with `pc++`. -/
def BpfState.brk (s : BpfState) : Iter := .cont { s with pc := s.pc + 1 }

/-- A load of `n` bytes at `offset`, guarded by the 32-bit test
`offset + n > sizeof(struct seccomp_data)`. -/
def guardedLoad (base : ℕ → UInt8) (offset : UInt32) (sz : Size) : Option UInt32 :=
  if (offset + .ofNat sz.bytes).toNat > sizeofSeccompData then none
  else some (leWord base offset.toNat sz.bytes)

/-- `pc += off; if (pc >= len) return -1; continue;` -/
def jump (s : BpfState) (off : UInt32) (len : UInt16) : Iter :=
  if s.pc + off ≥ len.toUInt32 then .ret (-1) else .cont { s with pc := s.pc + off }

/-- `return` of a filter value. -/
def retVerdict (v : UInt32) : Iter := if v = seccompRetAllow then .ret 0 else .ret (-1)

/-- The body of the case with the given label. The last two groups are opcodes of
the machine for which the source has no case. -/
def switchBody (base : ℕ → UInt8) (len : UInt16) (insn : SockFilter) (s : BpfState) :
    Op → Iter
  | .ldAbs sz =>
    match guardedLoad base insn.k sz with
    | some v => { s with A := v }.brk
    | none => .ret (-1)
  | .ldLen => { s with A := .ofNat sizeofSeccompData }.brk
  | .ldImm => { s with A := insn.k }.brk
  | .ldInd .word =>
    -- the test `X > UINT32_MAX - k` of the source
    if s.X > 0xFFFFFFFF - insn.k then .ret (-1)
    else
      match guardedLoad base (s.X + insn.k) .word with
      | some v => { s with A := v }.brk
      | none => .ret (-1)
  | .ldxImm => { s with X := insn.k }.brk
  | .ldxMem =>
    if insn.k ≥ bpfScratchSize then .ret (-1)
    else { s with X := s.scratch (insn.k &&& (bpfScratchSize - 1)).toNat }.brk
  | .ldxLen => { s with X := .ofNat sizeofSeccompData }.brk
  | .ldxMsh =>
    match guardedLoad base insn.k .byte with
    | some v => { s with X := 4 * (v &&& 0x0F) }.brk
    | none => .ret (-1)
  | .alu op src => { s with A := aluResult op s.A (operand src insn.k s) }.brk
  | .neg => { s with A := 0 - s.A }.brk
  | .ja => jump s insn.k len
  | .jmp c src =>
    if jumpTaken c s.A (operand src insn.k s) then jump s insn.jt.toUInt32 len
    else jump s insn.jf.toUInt32 len
  | .retK => retVerdict insn.k
  | .retA => retVerdict s.A
  | .tax => { s with X := s.A }.brk
  | .txa => { s with A := s.X }.brk
  | .st =>
    if insn.k ≥ bpfScratchSize then .ret (-1)
    else { s with scratch :=
            Function.update s.scratch (insn.k &&& (bpfScratchSize - 1)).toNat s.A }.brk
  | .stx =>
    if insn.k ≥ bpfScratchSize then .ret (-1)
    else { s with scratch :=
            Function.update s.scratch (insn.k &&& (bpfScratchSize - 1)).toNat s.X }.brk
  | .ldInd _ => .ret (-1)
  | .ldMem => .ret (-1)

/-- One iteration: the switch over the opcode, with `default: return -1`. -/
def iteration (prog : ℕ → SockFilter) (len : UInt16) (base : ℕ → UInt8) (s : BpfState) : Iter :=
  match caseLabels.find? (fun op => caseCode op = (prog s.pc.toNat).code) with
  | some op => switchBody base len (prog s.pc.toNat) s op
  | none => .ret (-1)

/-- `while (pc < len) { … } return -1;` -/
def bpfLoop (prog : ℕ → SockFilter) (len : UInt16) (base : ℕ → UInt8) :
    ℕ → BpfState → Option ℤ
  | 0, _ => none
  | fuel + 1, s =>
    if s.pc < len.toUInt32 then
      match iteration prog len base s with
      | .cont s' => bpfLoop prog len base fuel s'
      | .ret r => some r
    else some (-1)

def bpfInit : BpfState := ⟨0, 0, 0, fun _ => 0⟩

/-- `seccomp_run_bpf`; `none` while it has not returned. -/
def seccompRunBpf (fuel : ℕ) (prog : Option (ℕ → SockFilter)) (len : UInt16)
    (data : Option SeccompData) (beyond : ℕ → UInt8) : Option ℤ :=
  match prog with
  | none => some 0
  | some prog =>
    if len = 0 then some 0
    else
      match data with
      | none => some (-1)
      | some d => bpfLoop prog len (baseByte d beyond) fuel bpfInit

/-! ## Installing and checking a filter -/

/-- `seccomp_set_filter` on the `seccomp` field of a task (`none` for a null task):
the returned value and the field afterwards. `kmallocOk` says whether the
allocation of the copy succeeds. -/
def seccompSetFilter (seccomp : Option (Option SeccompFilter)) (filter : Option SeccompFilter)
    (kmallocOk : Bool) : ℤ × Option (Option SeccompFilter) :=
  match seccomp with
  | none => (-1, none)
  | some installed =>
    match filter with
    | none => if installed.isSome then (-1, some installed) else (0, some installed)
    | some f =>
      if installed.isSome then (-Errno.EACCES.code, some installed)
      else if f.bpfLen > seccompMaxBpfLen then (-1, some installed)
      else if !kmallocOk then (-1, some installed)
      else (0, some (some f))

/-- The structure `seccomp_check` fills in for the program. -/
def checkData (syscallNum : Int32) (args : Fin 6 → UInt64) : SeccompData :=
  ⟨syscallNum, auditArchX8664, 0, args⟩

/-- `seccomp_check` on the `seccomp` field of a task (`none` for a null task).
`beyond` is the kernel stack above the local structure. -/
def seccompCheck (fuel : ℕ) (seccomp : Option (Option SeccompFilter)) (syscallNum : Int32)
    (args : Option (Fin 6 → UInt64)) (beyond : ℕ → UInt8) : Option ℤ :=
  match seccomp with
  | none => some 0
  | some none => some 0
  | some (some filter) =>
    if syscallNum < 0 ∨ syscallNum ≥ 256 then some (-1)
    else
      let wordIdx := syscallNum.toInt.toNat / 64
      let bitIdx := syscallNum.toInt.toNat % 64
      if filter.syscallMask (.ofNat 4 wordIdx) &&& ((1 : UInt64) <<< .ofNat bitIdx) = 0 then
        some (-1)
      else
        match args with
        | none => some 0
        | some args =>
          if filter.bpfLen > 0 then
            (seccompRunBpf fuel (some filter.bpfProg) filter.bpfLen
                (some (checkData syscallNum args)) beyond).map
              fun bpfResult => if bpfResult ≠ 0 then -1 else 0
          else some 0

end Aurora.Seccomp
