import Mathlib.Data.Stream.Defs
import Mathlib.Logic.Function.Basic
import Ces.Vm.Host

/-!
# The machine

The state of `CesVM` and the primitives both interpreter cores are made of: the 1024 cells with their
register, byte and budget views, the data stack, the frames of `CALL`, billing, and `read`, which decodes
the operand at the program counter. The program counter is cell 0, so a write to that cell is a jump and
an operand that dereferences it sees how far the instruction has been read.

A fault sets `term` and the primitive returns; only the loop heads look at `term`.
-/

namespace Ces

open Ces.Lib

def cesvmIoSize : Nat := 1024
def cesvmMaxCode : Nat := 8192
def cesvmCodeBlock : Nat := 210
def cesvmMaxStackDepth : Nat := 1024
def cesvmMaxCallDepth : Nat := 256
def cesvmMaxHostvArgs : Nat := 16
def cesvmMaxInput : Nat := 1024
def cesvmMaxOutput : Nat := 1024

def cesvmCostPerMemop : UInt64 := 500
def cesvmCostPerCell : UInt64 := 3
def cesvmCostPerByte : UInt64 := 5
def cesvmCostVerifyEc : UInt64 := 300000
def cesvmScheduleBaseCost : UInt64 := cesvmCostPerOp * 100
def cesvmSchedulePerSec : UInt64 := cesvmCostPerOp

/-- Numerals are cell numbers. -/
instance neZero_ioSize : NeZero 1024 := ⟨by decide⟩

/-- The cell array. -/
abbrev Io := Fin 1024 → UInt64

/-! ### Cells with a role -/

def cellPc : Fin 1024 := 0
def cellR : Fin 1024 := 1
def cellS : Fin 1024 := 2
def cellSyscall : Fin 1024 := 3

def ioInputLen : Fin 1024 := 752
def ioOutputLen : Fin 1024 := 753
def ioBudget : Fin 1024 := 754
def ioStartTime : Fin 1024 := 755
def ioCallerKey : Nat := 756
def ioSelfKey : Nat := 760
def ioOutput : Nat := 764
def ioInput : Nat := 892
def ioAllowance : Fin 1024 := 1020
def ioBudgetRemaining : Fin 1024 := 1021
def ioInvokeKind : Fin 1024 := 1022
def ioProgramOwner : Nat := 1023

namespace Io

/-- The byte view: cells are little-endian. -/
def byteAt (io : Io) (k : Nat) : UInt8 :=
  if h : k / 8 < 1024 then UInt8.ofNat ((io ⟨k / 8, h⟩).toNat / 256 ^ (k % 8)) else 0

/-- Overwrite the bytes from `off` on by `data`. -/
def patchBytes (io : Io) (off : Nat) (data : Bytes) : Io := fun i =>
  if 8 * i.val + 8 ≤ off ∨ off + data.length ≤ 8 * i.val then io i
  else
    UInt64.ofNat (leNat ((List.range 8).map fun j =>
      if off ≤ 8 * i.val + j then data.getD (8 * i.val + j - off) (io.byteAt (8 * i.val + j))
      else io.byteAt (8 * i.val + j)))

end Io

/-- `stack` and `context` hold the newest entry first. `rng` and `clock` are what the generator and the
system clock will return. -/
structure Machine where
  io : Io
  stack : List UInt64
  context : List (Fin 16 → UInt64)
  term : VmError
  budget : UInt64
  budgetUsed : UInt64
  gasMult : UInt64
  code : Bytes
  rng : Stream' UInt64
  clock : Stream' UInt64
  opsExecuted : UInt64

namespace Machine

variable (m : Machine)

def pc : UInt64 := m.io cellPc

/-- Write a cell. -/
def set (i : Fin 1024) (v : UInt64) : Machine := { m with io := Function.update m.io i v }

def setPc (v : UInt64) : Machine := m.set cellPc v
def setR (v : UInt64) : Machine := m.set cellR v
def setS (v : UInt64) : Machine := m.set cellS v

def fault (e : VmError) : Machine := { m with term := e }

/-- The cell an index names. One out of range is a fault, and names `R`. -/
def get (index : UInt64) : Fin 1024 × Machine :=
  if h : index.toNat < cesvmIoSize then (⟨index.toNat, h⟩, m) else (cellR, m.fault .segfault)

/-- The value of the cell an index names. -/
def load (index : UInt64) : UInt64 × Machine :=
  let r := m.get index
  (r.2.io r.1, r.2)

/-- Write the cell an index names. -/
def store (index v : UInt64) : Machine :=
  let r := m.get index
  r.2.set r.1 v

/-! ### Stacks -/

def push (v : UInt64) : Machine :=
  if cesvmMaxStackDepth ≤ m.stack.length then m.fault .segfault else { m with stack := v :: m.stack }

def pop : UInt64 × Machine :=
  match m.stack with
  | [] => (0, m.fault .underflow)
  | v :: rest => (v, { m with stack := rest })

/-- Save the sixteen registers, the program counter behind the call among them. -/
def ctxPush : Bool × Machine :=
  if cesvmMaxCallDepth ≤ m.context.length then (false, m.fault .segfault)
  else (true, { m with context := (fun i => m.io (i.castLE (by decide))) :: m.context })

/-- Give the caller's registers back; `none` when there is no frame. -/
def ctxRestorePop : Option Machine :=
  match m.context with
  | [] => none
  | regs :: rest =>
    some { m with io := fun i => if h : i.val < 16 then regs ⟨i.val, h⟩ else m.io i, context := rest }

/-! ### Billing -/

/-- Out of gas: the mirror shows an empty budget. -/
def exhausted : Machine := (m.fault .budget).set ioBudgetRemaining 0

/-- Take credits off the budget and mirror what remains. -/
def billCredits (raw : UInt64) : Bool × Machine :=
  if m.budget - m.budgetUsed < raw then (false, m.exhausted)
  else
    let m' := { m with budgetUsed := m.budgetUsed + raw }
    (true, m'.set ioBudgetRemaining (m'.budget - m'.budgetUsed))

/-- Bill gas: a product that would wrap counts as out of gas. -/
def bill (cost : UInt64) : Bool × Machine :=
  if m.gasMult ≠ 0 ∧ uint64Max / m.gasMult < cost then (false, m.exhausted)
  else m.billCredits (cost * m.gasMult)

/-- Bill the gas `a * b`, unless it wraps; the mirror is left alone then. -/
def billMul (a b : UInt64) : Bool × Machine :=
  if b ≠ 0 ∧ uint64Max / b < a then (false, m.fault .budget) else m.bill (a * b)

/-- `opCostOvf_` and `opCost_` are computed once, from the multiplier. -/
def opCostOvf : Bool := uint64Max / m.gasMult < cesvmCostPerOp
def opCost : UInt64 := if m.opCostOvf then 0 else cesvmCostPerOp * m.gasMult

/-- The base cost of an instruction. -/
def billOp : Bool × Machine :=
  if m.opCostOvf ∨ m.budget - m.budgetUsed < m.opCost then (false, m.exhausted)
  else
    let m' := { m with budgetUsed := m.budgetUsed + m.opCost }
    (true, m'.set ioBudgetRemaining (m'.budget - m'.budgetUsed))

/-! ### Bytes -/

/-- The first byte of a range of `len` bytes that starts at a cell; `none` when it does not fit. -/
def byteRange (ioOffset : UInt64) (len : Nat) : Option Nat :=
  if uint64Max / 8 < ioOffset then none
  else if cesvmIoSize * 8 < len ∨ cesvmIoSize * 8 - len < ioOffset.toNat * 8 then none
  else some (ioOffset.toNat * 8)

/-- `none` is the fault. -/
def readIoBytes (ioOffset : UInt64) (len : Nat) : Option Bytes :=
  (byteRange ioOffset len).map fun off => (List.range len).map fun i => m.io.byteAt (off + i)

def writeIoBytes (ioOffset : UInt64) (data : Bytes) : Machine :=
  match byteRange ioOffset data.length with
  | none => m.fault .segfault
  | some off => { m with io := m.io.patchBytes off data }

/-! ### Operands -/

/-- The low six bits of a control byte: a short value, or the width of the payload behind it. -/
def shortVal (control : UInt8) : UInt8 := control &&& 0x3F
def isRegPtr (control : UInt8) : Bool := control &&& 0x80 != 0
def isShortVal (control : UInt8) : Bool := control &&& 0x40 != 0

/-- The little-endian value of `v` bytes of code. -/
def payload (code : Bytes) (p v : Nat) : UInt64 := UInt64.ofNat (leNat ((code.drop p).take v))

def codeByte (code : Bytes) (p : Nat) : UInt8 := code.getD p 0

/-- Dereference the value when the control byte asks for it. -/
def resolve (regptr : Bool) (val : UInt64) : UInt64 × Machine := if regptr then m.load val else (val, m)

/-- The payload of `v` bytes at the program counter. -/
def readPayload (v : Nat) (regptr : Bool) : UInt64 × Machine :=
  if m.code.length < v ∨ m.code.length - v < m.pc.toNat then (0, m.fault .codesize)
  else (m.setPc (m.pc + UInt64.ofNat v)).resolve regptr (payload m.code m.pc.toNat v)

/-- The operand at the program counter, which moves behind it. -/
def read : UInt64 × Machine :=
  if m.code.length ≤ m.pc.toNat then (0, m.fault .codesize)
  else
    let control := codeByte m.code m.pc.toNat
    let m := m.setPc (m.pc + 1)
    if isShortVal control then m.resolve (isRegPtr control) (shortVal control).toUInt64
    else if 8 < shortVal control then (0, m.fault .opcode)
    else m.readPayload (shortVal control).toNat (isRegPtr control)

/-- `read(true)`: a two-byte address without a control byte. -/
def readTarget : UInt64 × Machine :=
  if m.code.length ≤ m.pc.toNat then (0, m.fault .codesize) else m.readPayload 2 false

/-! ### Entropy and time -/

def random : UInt64 × Machine := (m.rng.head, { m with rng := m.rng.tail })

def now : UInt64 × Machine := (m.clock.head, { m with clock := m.clock.tail })

/-- The low bytes of `n` draws. -/
def randomBytes : Nat → Machine → Bytes × Machine
  | 0, m => ([], m)
  | n + 1, m =>
    let r := m.random
    let rest := randomBytes n r.2
    (r.1.toUInt8 :: rest.1, rest.2)

end Machine

end Ces
