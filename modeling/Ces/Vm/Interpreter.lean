import Ces.Vm.Syscall

/-!
# The reference core

`stepSlow` executes one instruction and is the semantics of the bytecode: an opcode reads its operands one
after the other, each `read` moving the program counter, and then acts. `runLegacy` turns it over until the
run terminates or leaves the code. `execute` sets a machine up, runs a core and reads the result off.

The loop has fuel. Every turn costs gas, so a budget is enough fuel (`execute_metered`).
-/

namespace Ces

open Ces.Lib

inductive Opcode where
  | nop | term | set | jmp
  | add | sub | mul | div
  | mod | or | andl | xor
  | not | shl | shr | inc
  | dec | push | pop | and
  | host | vpush | vpop | call
  | ret | jf | jt | eq
  | ne | gt | lt | ge
  | le | neg | orl | rnd
  | time | mov | ldb | stb
  | cmp | fil | hostx | abort
  | jmpr | callr | hostv | hostxv
  | sar | lnot | slt | sgt
  | sge | sle | addx | subx
  | mulx | assert | dup
  deriving DecidableEq

namespace Opcode

/-- The opcodes in the order of their numbers. -/
def all : List Opcode :=
  [nop, term, set, jmp, add, sub, mul, div, mod, or, andl, xor, not, shl, shr, inc, dec, push, pop, and,
    host, vpush, vpop, call, ret, jf, jt, eq, ne, gt, lt, ge, le, neg, orl, rnd, time, mov, ldb, stb, cmp,
    fil, hostx, abort, jmpr, callr, hostv, hostxv, sar, lnot, slt, sgt, sge, sle, addx, subx, mulx, assert,
    dup]

/-- The opcode of a byte, and whether its high bit selects the stack form. -/
def ofByte (b : UInt8) : Option (Opcode × Bool) :=
  all[(b &&& 0x7F).toNat]?.map fun op => (op, b &&& 0x80 != 0)

end Opcode

/-- `true` is one. -/
def word (b : Bool) : UInt64 := if b then 1 else 0

/-- What the reference core computes from two operands. -/
def Opcode.binary? : Opcode → Option (UInt64 → UInt64 → Except VmError UInt64)
  | .add => some fun op1 op2 => .ok (op1 + op2)
  | .sub => some fun op1 op2 => .ok (op1 - op2)
  | .mul => some fun op1 op2 => .ok (op1 * op2)
  | .div => some fun op1 op2 => if op2 ≠ 0 then .ok (op1 / op2) else .error .divzero
  | .mod => some fun op1 op2 => if op2 ≠ 0 then .ok (op1 % op2) else .error .divzero
  | .or => some fun op1 op2 => .ok (op1 ||| op2)
  | .andl => some fun op1 op2 => .ok (word (op1 ≠ 0 ∧ op2 ≠ 0))
  | .xor => some fun op1 op2 => .ok (op1 ^^^ op2)
  | .shl => some fun op1 op2 => if 64 ≤ op2 then .error .segfault else .ok (op1 <<< op2)
  | .shr => some fun op1 op2 => if 64 ≤ op2 then .error .segfault else .ok (op1 >>> op2)
  | .sar => some fun op1 op2 =>
    if 64 ≤ op2 then .error .segfault else .ok (asUInt64 (asInt64 op1 >>> op2.toNat))
  | .and => some fun op1 op2 => .ok (op1 &&& op2)
  | .eq => some fun op1 op2 => .ok (word (op1 = op2))
  | .ne => some fun op1 op2 => .ok (word (op1 ≠ op2))
  | .gt => some fun op1 op2 => .ok (word (op2 < op1))
  | .lt => some fun op1 op2 => .ok (word (op1 < op2))
  | .ge => some fun op1 op2 => .ok (word (op2 ≤ op1))
  | .le => some fun op1 op2 => .ok (word (op1 ≤ op2))
  | .slt => some fun op1 op2 => .ok (word (asInt64 op1 < asInt64 op2))
  | .sgt => some fun op1 op2 => .ok (word (asInt64 op2 < asInt64 op1))
  | .sge => some fun op1 op2 => .ok (word (asInt64 op2 ≤ asInt64 op1))
  | .sle => some fun op1 op2 => .ok (word (asInt64 op1 ≤ asInt64 op2))
  | .addx => some fun op1 op2 => if uint64Max - op2 < op1 then .error .overflow else .ok (op1 + op2)
  | .subx => some fun op1 op2 => if op1 < op2 then .error .overflow else .ok (op1 - op2)
  | .mulx => some fun op1 op2 =>
    if op2 ≠ 0 ∧ uint64Max / op2 < op1 then .error .overflow else .ok (op1 * op2)
  | .orl => some fun op1 op2 => .ok (word (op1 ≠ 0 ∨ op2 ≠ 0))
  | _ => none

/-- What the reference core computes from one operand. -/
def Opcode.unary? : Opcode → Option (UInt64 → UInt64)
  | .not => some fun op1 => ~~~op1
  | .lnot => some fun op1 => word (op1 = 0)
  | .neg => some fun op1 => 0 - op1
  | _ => none

namespace Machine

/-- The result of a computation goes to `R`. -/
def putR (m : Machine) : Except VmError UInt64 → Machine
  | .ok v => m.setR v
  | .error e => m.fault e

/-- The result of a computation goes on the stack. -/
def putStack (m : Machine) : Except VmError UInt64 → Machine
  | .ok v => m.push v
  | .error e => m.fault e

/-- `op1 = read(); next` -/
def read1 (m : Machine) (next : UInt64 → Machine → Machine) : Machine :=
  next m.read.1 m.read.2

/-- `op1 = read(); op2 = read(); next` -/
def read2 (m : Machine) (next : UInt64 → UInt64 → Machine → Machine) : Machine :=
  m.read1 fun op1 m => m.read1 fun op2 m => next op1 op2 m

def read3 (m : Machine) (next : UInt64 → UInt64 → UInt64 → Machine → Machine) : Machine :=
  m.read1 fun op1 m => m.read2 fun op2 cnt m => next op1 op2 cnt m

/-- `op1 = pop(); next` -/
def pop1 (m : Machine) (next : UInt64 → Machine → Machine) : Machine := next m.pop.1 m.pop.2

/-- `op2 = pop(); op1 = pop(); next` -/
def pop2 (m : Machine) (next : UInt64 → UInt64 → Machine → Machine) : Machine :=
  m.pop1 fun op2 m => m.pop1 fun op1 m => next op1 op2 m

/-! ### Effects of instructions -/

def jumpIf (m : Machine) (taken : Bool) : Machine :=
  if taken then m.readTarget.2.setPc m.readTarget.1 else m.setPc (m.pc + 2)

def callTo (m : Machine) (target : UInt64) : Machine :=
  let r := m.ctxPush
  if r.1 then r.2.setPc target else r.2

def ret (m : Machine) (op1 : UInt64) : Machine :=
  match m.ctxRestorePop with
  | none => m.fault .ret
  | some m => m.setR op1

/-- `++get(op1); get(get(op1)) = op2;` -/
def vpush (m : Machine) (op1 op2 : UInt64) : Machine :=
  let r := m.get op1
  let m := r.2.set r.1 (r.2.io r.1 + 1)
  let top := m.load op1
  top.2.store top.1 op2

/-- `get(op2) = get(op1); --get(op1);` -/
def vpop (m : Machine) (op1 op2 : UInt64) : Machine :=
  let top := m.load op1
  let m := top.2.store op2 top.1
  let r := m.get op1
  r.2.set r.1 (r.2.io r.1 - 1)

/-- Add to a cell. -/
def addTo (m : Machine) (op1 d : UInt64) : Machine :=
  let r := m.get op1
  r.2.set r.1 (r.2.io r.1 + d)

/-- `get(op1) = pop();`, the right side first. -/
def popTo (m : Machine) (op1 : UInt64) : Machine := m.pop.2.store op1 m.pop.1

/-- `cnt` cells from `op` on lie in the array. -/
def cellsFit (op cnt : UInt64) : Bool := cnt.toNat ≤ cesvmIoSize && op.toNat ≤ cesvmIoSize - cnt.toNat

/-- Bill per cell and act, when the ranges lie in the array. -/
def bulk (m : Machine) (fits : Bool) (cnt : UInt64) (act : Machine → Machine) : Machine :=
  if !fits then m.fault .segfault
  else
    let r := m.billMul cnt cesvmCostPerCell
    if r.1 then act r.2 else r.2

/-- The cell at a distance, for a range that lies in the array. -/
def cellAt (io : Io) (k : Nat) : UInt64 := if h : k < 1024 then io ⟨k, h⟩ else 0

def moveCells (dst src cnt : Nat) (m : Machine) : Machine :=
  { m with io := fun i =>
      if dst ≤ i.val ∧ i.val < dst + cnt then cellAt m.io (src + (i.val - dst)) else m.io i }

def fillCells (dst : Nat) (v : UInt64) (cnt : Nat) (m : Machine) : Machine :=
  { m with io := fun i => if dst ≤ i.val ∧ i.val < dst + cnt then v else m.io i }

def compareCells (a b cnt : Nat) (m : Machine) : Machine :=
  m.setR (word ((List.range cnt).all fun k => cellAt m.io (a + k) == cellAt m.io (b + k)))

def mov (m : Machine) (op1 op2 cnt : UInt64) : Machine :=
  m.bulk (cellsFit op1 cnt && cellsFit op2 cnt) cnt (moveCells op1.toNat op2.toNat cnt.toNat)

def cmp (m : Machine) (op1 op2 cnt : UInt64) : Machine :=
  m.bulk (cellsFit op1 cnt && cellsFit op2 cnt) cnt (compareCells op1.toNat op2.toNat cnt.toNat)

def fil (m : Machine) (op1 op2 cnt : UInt64) : Machine :=
  m.bulk (cellsFit op1 cnt) cnt (fillCells op1.toNat op2 cnt.toNat)

/-- The byte at an offset, or a fault. -/
def ldb (m : Machine) (op1 : UInt64) : Except VmError UInt64 :=
  if cesvmIoSize * 8 ≤ op1.toNat then .error .segfault else .ok (m.io.byteAt op1.toNat).toUInt64

def stb (m : Machine) (op1 op2 : UInt64) : Machine :=
  if cesvmIoSize * 8 ≤ op1.toNat then m.fault .segfault
  else { m with io := m.io.patchBytes op1.toNat [op2.toUInt8] }

/-- A nonzero `S` ends an asserting syscall. -/
def abortOnError (m : Machine) : Machine :=
  if m.term = .ok ∧ m.io cellS ≠ 0 then m.fault .abort else m

/-! ### Variadic syscalls -/

/-- Read the arguments one by one, up to the first fault. -/
def readArgs : Nat → Machine → List UInt64 × Machine
  | 0, m => ([], m)
  | n + 1, m =>
    if m.read.2.term ≠ .ok then ([], m.read.2)
    else
      let rest := readArgs n m.read.2
      (m.read.1 :: rest.1, rest.2)

/-- Put the arguments in the cells from `io[4]` on. -/
def putArgs (m : Machine) (args : List UInt64) : Machine :=
  { m with io := fun i => if 4 ≤ i.val ∧ i.val - 4 < args.length then args.getD (i.val - 4) 0 else m.io i }

section

variable (lib : VmLib) (fees : VmFees)

/-- `HOSTV` and `HOSTXV`: all arguments are read before any is written. -/
def hostV (asserting : Bool) (m : Machine) : Vm Machine :=
  let num := m.read
  if num.2.term ≠ .ok then .done num.2
  else
    let count := num.2.read
    if count.2.term ≠ .ok then .done count.2
    else if cesvmMaxHostvArgs < count.1.toNat then .done (count.2.fault .segfault)
    else
      count.2.billing (cesvmCostPerOp * (count.1 + 1)) fun m =>
      let args := readArgs count.1.toNat m
      if args.2.term ≠ .ok then .done args.2
      else
        (hostCall lib fees ((args.2.set cellSyscall num.1).putArgs args.1)).map fun m =>
          if asserting then m.abortOnError else m

/-- The instruction of an opcode, behind its opcode byte. -/
def slowOp (op : Opcode) (stack : Bool) (m : Machine) : Vm Machine :=
  match op.binary? with
  | some f =>
    .done (if stack then m.pop2 fun op1 op2 m => m.putStack (f op1 op2)
      else m.read2 fun op1 op2 m => m.putR (f op1 op2))
  | none =>
    match op.unary? with
    | some f =>
      .done (if stack then m.pop1 fun op1 m => m.push (f op1) else m.read1 fun op1 m => m.setR (f op1))
    | none =>
      match op, stack with
      | .nop, false => .done m
      | .term, false => .done (m.setPc uint64Max)
      | .set, false => .done (m.read2 fun op1 op2 m => m.store op1 op2)
      | .jmp, false => .done (m.readTarget.2.setPc m.readTarget.1)
      | .inc, false => .done (m.read1 fun op1 m => m.addTo op1 1)
      | .dec, false => .done (m.read1 fun op1 m => m.addTo op1 (0 - 1))
      | .push, false => .done (m.read1 fun op1 m => m.push op1)
      | .pop, false => .done (m.read1 fun op1 m => m.popTo op1)
      | .host, false => hostCall lib fees m
      | .hostx, false => (hostCall lib fees m).map abortOnError
      | .abort, false => .done (m.fault .abort)
      | .vpush, false => .done (m.read2 fun op1 op2 m => m.vpush op1 op2)
      | .vpop, false => .done (m.read2 fun op1 op2 m => m.vpop op1 op2)
      | .call, false => .done (m.readTarget.2.callTo m.readTarget.1)
      | .call, true => .done (m.pop1 fun op1 m => m.callTo op1)
      | .jmpr, false => .done (m.read1 fun op1 m => m.setPc op1)
      | .callr, false => .done (m.read1 fun op1 m => m.callTo op1)
      | .hostv, false => hostV lib fees false m
      | .hostxv, false => hostV lib fees true m
      | .ret, false => .done (m.read1 fun op1 m => m.ret op1)
      | .jf, false => .done (m.read1 fun op1 m => m.jumpIf (op1 = 0))
      | .jf, true => .done (m.pop1 fun op1 m => m.jumpIf (op1 = 0))
      | .jt, false => .done (m.read1 fun op1 m => m.jumpIf (op1 ≠ 0))
      | .jt, true => .done (m.pop1 fun op1 m => m.jumpIf (op1 ≠ 0))
      | .assert, false => .done (m.read1 fun op1 m => if op1 = 0 then m.fault .abort else m)
      | .assert, true =>
        -- a pop from an empty stack is no failed assertion
        .done (m.pop1 fun op1 m => if op1 = 0 ∧ m.term = .ok then m.fault .abort else m)
      | .dup, false => .done (m.pop1 fun op1 m => (m.push op1).push op1)
      | .rnd, false => .done (m.random.2.setR m.random.1)
      | .rnd, true => .done (m.random.2.push m.random.1)
      | .time, false => .done (m.now.2.setR m.now.1)
      | .time, true => .done (m.now.2.push m.now.1)
      | .mov, false => .done (m.read3 fun op1 op2 cnt m => m.mov op1 op2 cnt)
      | .cmp, false => .done (m.read3 fun op1 op2 cnt m => m.cmp op1 op2 cnt)
      | .fil, false => .done (m.read3 fun op1 op2 cnt m => m.fil op1 op2 cnt)
      | .ldb, false => .done (m.read1 fun op1 m => m.putR (m.ldb op1))
      | .ldb, true => .done (m.pop1 fun op1 m => m.putStack (m.ldb op1))
      | .stb, false => .done (m.read2 fun op1 op2 m => m.stb op1 op2)
      | .stb, true => .done (m.pop2 fun op1 op2 m => m.stb op1 op2)
      | _, _ => .done (m.fault .opcode)

/-- Execute the instruction at the program counter; its base cost is billed already. -/
def stepSlow (m : Machine) : Vm Machine :=
  match Opcode.ofByte (codeByte m.code m.pc.toNat) with
  | none => .done ((m.setPc (m.pc + 1)).fault .opcode)
  | some (op, stack) => slowOp lib fees op stack (m.setPc (m.pc + 1))

/-- Count an instruction. -/
def tick (m : Machine) : Machine := { m with opsExecuted := m.opsExecuted + 1 }

/-- One turn of `runLegacy`. -/
def legacyTurn (m : Machine) : Vm (Turn Machine) :=
  if m.term ≠ .ok ∨ m.code.length ≤ m.pc.toNat then .done (.stop m)
  else
    let r := m.tick.billOp
    if r.1 then (stepSlow lib fees r.2).map .next else .done (.stop (r.2.setPc (r.2.pc + 1)))

def runLegacy (fuel : Nat) (m : Machine) : Vm (Option Machine) := Program.loop (legacyTurn lib fees) fuel m

end

/-! ### A run -/

/-- The machine `execute` starts: cells preloaded with the context of the run. -/
def boot (req : VmRunRequest) (rng clock : Stream' UInt64) : Machine :=
  let input := req.input.take cesvmMaxInput
  let m : Machine :=
    { io := fun _ => 0, stack := [], context := [], term := .ok, budget := req.budget, budgetUsed := 0
      gasMult := if req.gasMult = 0 then 1 else req.gasMult, code := req.code, rng := rng
      clock := clock.tail, opsExecuted := 0 }
  let m := (m.set ioInputLen (UInt64.ofNat input.length)).set ioOutputLen 0
  let m := (m.set ioBudget req.budget).set ioStartTime clock.head
  let m := (m.set ioAllowance req.allowance).set ioBudgetRemaining req.budget
  let m := m.set ioInvokeKind req.invokeKind
  let m := m.writeIoBytes (UInt64.ofNat ioCallerKey) req.callerKey.bytes
  let m := m.writeIoBytes (UInt64.ofNat ioSelfKey) req.selfAssetKey.bytes
  let m := m.writeIoBytes (UInt64.ofNat ioProgramOwner) req.programOwnerPrefix.bytes
  if 0 < input.length then m.writeIoBytes (UInt64.ofNat ioInput) input else m

/-- The output the program left in its cells. -/
def output (m : Machine) : Bytes :=
  (m.readIoBytes (UInt64.ofNat ioOutput) (min (m.io ioOutputLen).toNat cesvmMaxOutput)).getD []

end Machine

/-- `CesVMResult`, and the cells the run leaves. -/
structure CesVMResult where
  error : VmError
  opsExecuted : UInt64
  budgetUsed : UInt64
  output : Bytes
  io : Io

def Machine.result (m : Machine) : CesVMResult :=
  ⟨m.term, m.opsExecuted, m.budgetUsed, m.output, m.io⟩

/-- `execute` with a core; an oversize program is refused before it runs. -/
def executeWith {S : Type} (core : Machine → Vm (Option S)) (view : S → Machine) (req : VmRunRequest)
    (rng clock : Stream' UInt64) : Vm (Option CesVMResult) :=
  if cesvmMaxCode < req.code.length then .done (some ⟨.codesize, 0, 0, [], fun _ => 0⟩)
  else (core (Machine.boot req rng clock)).map (Option.map fun s => (view s).result)

end Ces
