import Ces.Vm.Interpreter

/-!
# The predecoded core

`runFast` decodes the instruction at a byte offset once, keeps the result in a table and dispatches on it.
Entries are stamped with the epoch of the run that made them, so the table of an earlier run is never
believed, and the table grows when the program loads more code. Whatever `decodeAt` cannot decode statically
(a truncated or oversize encoding, a dereference of cell 0, a variadic syscall) keeps the handler `slow` and
goes through `stepSlow`.
-/

namespace Ces

open Ces.Lib

/-- `H_SLOW`, or the handler of an opcode: `H_ADD` is `op .add false` and `H_ADD_S` is `op .add true`. -/
inductive Handler where
  | slow
  | op (o : Opcode) (stack : Bool)
  deriving DecidableEq

/-- How an opcode is decoded: handler, inline operands, and whether a jump target follows them. -/
structure FastOpInfo where
  h : Handler := .slow
  nops : Nat := 0
  jumpTail : Bool := false

/-- The rows of the plain opcodes. -/
def fastOpInfo : Opcode → FastOpInfo
  | .nop => ⟨.op .nop false, 0, false⟩
  | .term => ⟨.op .term false, 0, false⟩
  | .set => ⟨.op .set false, 2, false⟩
  | .jmp => ⟨.op .jmp false, 0, true⟩
  | .add => ⟨.op .add false, 2, false⟩
  | .sub => ⟨.op .sub false, 2, false⟩
  | .mul => ⟨.op .mul false, 2, false⟩
  | .div => ⟨.op .div false, 2, false⟩
  | .mod => ⟨.op .mod false, 2, false⟩
  | .or => ⟨.op .or false, 2, false⟩
  | .andl => ⟨.op .andl false, 2, false⟩
  | .xor => ⟨.op .xor false, 2, false⟩
  | .not => ⟨.op .not false, 1, false⟩
  | .shl => ⟨.op .shl false, 2, false⟩
  | .shr => ⟨.op .shr false, 2, false⟩
  | .inc => ⟨.op .inc false, 1, false⟩
  | .dec => ⟨.op .dec false, 1, false⟩
  | .push => ⟨.op .push false, 1, false⟩
  | .pop => ⟨.op .pop false, 1, false⟩
  | .and => ⟨.op .and false, 2, false⟩
  | .host => ⟨.op .host false, 0, false⟩
  | .vpush => ⟨.op .vpush false, 2, false⟩
  | .vpop => ⟨.op .vpop false, 2, false⟩
  | .call => ⟨.op .call false, 0, true⟩
  | .ret => ⟨.op .ret false, 1, false⟩
  | .jf => ⟨.op .jf false, 1, true⟩
  | .jt => ⟨.op .jt false, 1, true⟩
  | .eq => ⟨.op .eq false, 2, false⟩
  | .ne => ⟨.op .ne false, 2, false⟩
  | .gt => ⟨.op .gt false, 2, false⟩
  | .lt => ⟨.op .lt false, 2, false⟩
  | .ge => ⟨.op .ge false, 2, false⟩
  | .le => ⟨.op .le false, 2, false⟩
  | .neg => ⟨.op .neg false, 1, false⟩
  | .orl => ⟨.op .orl false, 2, false⟩
  | .rnd => ⟨.op .rnd false, 0, false⟩
  | .time => ⟨.op .time false, 0, false⟩
  | .mov => ⟨.op .mov false, 3, false⟩
  | .ldb => ⟨.op .ldb false, 1, false⟩
  | .stb => ⟨.op .stb false, 2, false⟩
  | .cmp => ⟨.op .cmp false, 3, false⟩
  | .fil => ⟨.op .fil false, 3, false⟩
  | .hostx => ⟨.op .hostx false, 0, false⟩
  | .abort => ⟨.op .abort false, 0, false⟩
  | .jmpr => ⟨.op .jmpr false, 1, false⟩
  | .callr => ⟨.op .callr false, 1, false⟩
  -- the operand count of a variadic syscall is a runtime value
  | .hostv => {}
  | .hostxv => {}
  | .sar => ⟨.op .sar false, 2, false⟩
  | .lnot => ⟨.op .lnot false, 1, false⟩
  | .slt => ⟨.op .slt false, 2, false⟩
  | .sgt => ⟨.op .sgt false, 2, false⟩
  | .sge => ⟨.op .sge false, 2, false⟩
  | .sle => ⟨.op .sle false, 2, false⟩
  | .addx => ⟨.op .addx false, 2, false⟩
  | .subx => ⟨.op .subx false, 2, false⟩
  | .mulx => ⟨.op .mulx false, 2, false⟩
  | .assert => ⟨.op .assert false, 1, false⟩
  | .dup => ⟨.op .dup false, 0, false⟩

/-- The rows of the stack forms. -/
def fastStackOpInfo : Opcode → FastOpInfo
  | .add => ⟨.op .add true, 0, false⟩
  | .sub => ⟨.op .sub true, 0, false⟩
  | .mul => ⟨.op .mul true, 0, false⟩
  | .div => ⟨.op .div true, 0, false⟩
  | .mod => ⟨.op .mod true, 0, false⟩
  | .or => ⟨.op .or true, 0, false⟩
  | .andl => ⟨.op .andl true, 0, false⟩
  | .xor => ⟨.op .xor true, 0, false⟩
  | .not => ⟨.op .not true, 0, false⟩
  | .shl => ⟨.op .shl true, 0, false⟩
  | .shr => ⟨.op .shr true, 0, false⟩
  | .and => ⟨.op .and true, 0, false⟩
  | .call => ⟨.op .call true, 0, false⟩
  | .jf => ⟨.op .jf true, 0, true⟩
  | .jt => ⟨.op .jt true, 0, true⟩
  | .eq => ⟨.op .eq true, 0, false⟩
  | .ne => ⟨.op .ne true, 0, false⟩
  | .gt => ⟨.op .gt true, 0, false⟩
  | .lt => ⟨.op .lt true, 0, false⟩
  | .ge => ⟨.op .ge true, 0, false⟩
  | .le => ⟨.op .le true, 0, false⟩
  | .neg => ⟨.op .neg true, 0, false⟩
  | .orl => ⟨.op .orl true, 0, false⟩
  | .rnd => ⟨.op .rnd true, 0, false⟩
  | .time => ⟨.op .time true, 0, false⟩
  | .ldb => ⟨.op .ldb true, 0, false⟩
  | .stb => ⟨.op .stb true, 0, false⟩
  | .sar => ⟨.op .sar true, 0, false⟩
  | .lnot => ⟨.op .lnot true, 0, false⟩
  | .slt => ⟨.op .slt true, 0, false⟩
  | .sgt => ⟨.op .sgt true, 0, false⟩
  | .sge => ⟨.op .sge true, 0, false⟩
  | .sle => ⟨.op .sle true, 0, false⟩
  | .addx => ⟨.op .addx true, 0, false⟩
  | .subx => ⟨.op .subx true, 0, false⟩
  | .mulx => ⟨.op .mulx true, 0, false⟩
  | .assert => ⟨.op .assert true, 0, false⟩
  | _ => {}

/-- `kFastOpInfo`: a byte that is no opcode has the default row. -/
def kFastOpInfo (b : UInt8) : FastOpInfo :=
  match Opcode.ofByte b with
  | none => {}
  | some (op, false) => fastOpInfo op
  | some (op, true) => fastStackOpInfo op

/-! ### Decoding -/

/-- A decoded operand: an immediate, or the index of the cell to dereference. -/
structure Operand where
  val : UInt64 := 0
  regptr : Bool := false

/-- An entry of the table. The fields behind `h` of a slow entry are not read. -/
structure Decoded where
  epoch : UInt32 := 0
  h : Handler := .slow
  ops : List Operand := []
  nextPc : UInt16 := 0
  target : UInt16 := 0

/-- The value of an operand and the offset behind it. -/
def decodeValue (code : Bytes) (control : UInt8) (p : Nat) : Option (UInt64 × Nat) :=
  let v := Machine.shortVal control
  if Machine.isShortVal control then some (v.toUInt64, p)
  else if 8 < v then none
  else if code.length < v.toNat ∨ code.length - v.toNat < p then none
  else some (Machine.payload code p v.toNat, p + v.toNat)

/-- A dereference of cell 0 sees the program counter in the middle of the instruction: not decoded. -/
def decodeOperand (code : Bytes) (p : Nat) : Option (Operand × Nat) :=
  if code.length ≤ p then none
  else
    let control := Machine.codeByte code p
    match decodeValue code control (p + 1) with
    | none => none
    | some (val, p') =>
      if Machine.isRegPtr control ∧ val = 0 then none else some (⟨val, Machine.isRegPtr control⟩, p')

def decodeOperands (code : Bytes) : Nat → Nat → Option (List Operand × Nat)
  | 0, p => some ([], p)
  | n + 1, p =>
    match decodeOperand code p with
    | none => none
    | some (o, p') => (decodeOperands code n p').map fun r => (o :: r.1, r.2)

/-- The jump target behind the operands. -/
def decodeTail (code : Bytes) (jumpTail : Bool) (p : Nat) : Option (UInt16 × Nat) :=
  if jumpTail then
    if code.length < p + 2 then none
    else
      some ((Machine.codeByte code p).toUInt16 ||| (Machine.codeByte code (p + 1)).toUInt16 <<< 8, p + 2)
  else some (0, p)

/-- Operands, target and the offset behind the instruction. -/
def decodeBody (code : Bytes) (info : FastOpInfo) (p : Nat) : Option (List Operand × UInt16 × Nat) :=
  match decodeOperands code info.nops p with
  | none => none
  | some (ops, p') => (decodeTail code info.jumpTail p').map fun r => (ops, r.1, r.2)

/-- Any anomaly leaves the entry slow. -/
def decodeAt (code : Bytes) (epoch : UInt32) (pc0 : Nat) : Decoded :=
  let info := kFastOpInfo (Machine.codeByte code pc0)
  match info.h with
  | .slow => { epoch := epoch }
  | .op o stack =>
    match decodeBody code info (pc0 + 1) with
    | none => { epoch := epoch }
    | some (ops, target, p) =>
      { epoch := epoch, h := .op o stack, ops := ops, nextPc := UInt16.ofNat p, target := target }

/-! ### Handlers -/

/-- What the fast handlers compute from two operands. -/
def Opcode.fastBinary? : Opcode → Option (UInt64 → UInt64 → Except VmError UInt64)
  | .add => some fun a b => .ok (a + b)
  | .sub => some fun a b => .ok (a - b)
  | .mul => some fun a b => .ok (a * b)
  | .or => some fun a b => .ok (a ||| b)
  | .and => some fun a b => .ok (a &&& b)
  | .xor => some fun a b => .ok (a ^^^ b)
  | .andl => some fun a b => .ok (word (a ≠ 0 ∧ b ≠ 0))
  | .orl => some fun a b => .ok (word (a ≠ 0 ∨ b ≠ 0))
  | .eq => some fun a b => .ok (word (a = b))
  | .ne => some fun a b => .ok (word (a ≠ b))
  | .gt => some fun a b => .ok (word (b < a))
  | .lt => some fun a b => .ok (word (a < b))
  | .ge => some fun a b => .ok (word (b ≤ a))
  | .le => some fun a b => .ok (word (a ≤ b))
  | .slt => some fun a b => .ok (word (asInt64 a < asInt64 b))
  | .sgt => some fun a b => .ok (word (asInt64 b < asInt64 a))
  | .sge => some fun a b => .ok (word (asInt64 b ≤ asInt64 a))
  | .sle => some fun a b => .ok (word (asInt64 a ≤ asInt64 b))
  | .div => some fun a b => if b ≠ 0 then .ok (a / b) else .error .divzero
  | .mod => some fun a b => if b ≠ 0 then .ok (a % b) else .error .divzero
  | .shl => some fun a b => if 64 ≤ b then .error .segfault else .ok (a <<< b)
  | .shr => some fun a b => if 64 ≤ b then .error .segfault else .ok (a >>> b)
  | .sar => some fun a b => if 64 ≤ b then .error .segfault else .ok (asUInt64 (asInt64 a >>> b.toNat))
  | .addx => some fun a b => if uint64Max - b < a then .error .overflow else .ok (a + b)
  | .subx => some fun a b => if a < b then .error .overflow else .ok (a - b)
  | .mulx => some fun a b => if b ≠ 0 ∧ uint64Max / b < a then .error .overflow else .ok (a * b)
  | _ => none

def Opcode.fastUnary? : Opcode → Option (UInt64 → UInt64)
  | .not => some fun a => ~~~a
  | .lnot => some fun a => word (a = 0)
  | .neg => some fun a => 0 - a
  | _ => none

namespace Machine

/-- `VMOP(i)`: the immediate, or a dereference with its bounds check. -/
def vmOp (m : Machine) (d : Decoded) (i : Nat) : UInt64 × Machine :=
  m.resolve (d.ops.getD i {}).regptr (d.ops.getD i {}).val

def vmOp1 (m : Machine) (d : Decoded) (next : UInt64 → Machine → Machine) : Machine :=
  next (m.vmOp d 0).1 (m.vmOp d 0).2

def vmOp2 (m : Machine) (d : Decoded) (next : UInt64 → UInt64 → Machine → Machine) : Machine :=
  m.vmOp1 d fun a m => next a (m.vmOp d 1).1 (m.vmOp d 1).2

def vmOp3 (m : Machine) (d : Decoded) (next : UInt64 → UInt64 → UInt64 → Machine → Machine) : Machine :=
  m.vmOp2 d fun a b m => next a b (m.vmOp d 2).1 (m.vmOp d 2).2

def jumpTo (m : Machine) (d : Decoded) : Machine := m.setPc d.target.toUInt64

section

variable (lib : VmLib) (fees : VmFees)

/-- The handlers. The program counter stands behind the instruction already. -/
def fastOp (d : Decoded) (op : Opcode) (stack : Bool) (m : Machine) : Vm Machine :=
  match op.fastBinary? with
  | some f =>
    .done (if stack then m.pop2 fun a b m => m.putStack (f a b) else m.vmOp2 d fun a b m => m.putR (f a b))
  | none =>
    match op.fastUnary? with
    | some f => .done (if stack then m.pop1 fun a m => m.push (f a) else m.vmOp1 d fun a m => m.setR (f a))
    | none =>
      match op, stack with
      | .nop, false => .done m
      | .term, false => .done (m.setPc uint64Max)
      | .set, false => .done (m.vmOp2 d fun a b m => m.store a b)
      | .jmp, false => .done (m.jumpTo d)
      | .inc, false => .done (m.vmOp1 d fun a m => m.addTo a 1)
      | .dec, false => .done (m.vmOp1 d fun a m => m.addTo a (0 - 1))
      | .push, false => .done (m.vmOp1 d fun a m => m.push a)
      | .pop, false => .done (m.vmOp1 d fun a m => m.popTo a)
      | .host, false => hostCall lib fees m
      | .hostx, false => (hostCall lib fees m).map abortOnError
      | .abort, false => .done (m.fault .abort)
      | .vpush, false => .done (m.vmOp2 d fun a b m => m.vpush a b)
      | .vpop, false => .done (m.vmOp2 d fun a b m => m.vpop a b)
      | .call, false => .done (if m.ctxPush.1 then m.ctxPush.2.jumpTo d else m.ctxPush.2)
      | .call, true => .done (m.pop1 fun a m => if m.ctxPush.1 then m.ctxPush.2.setPc a else m.ctxPush.2)
      | .callr, false => .done (m.vmOp1 d fun a m => if m.ctxPush.1 then m.ctxPush.2.setPc a else m.ctxPush.2)
      | .jmpr, false => .done (m.vmOp1 d fun a m => m.setPc a)
      | .ret, false => .done (m.vmOp1 d fun a m => m.ret a)
      | .jf, false => .done (m.vmOp1 d fun a m => if a = 0 then m.jumpTo d else m)
      | .jf, true => .done (m.pop1 fun a m => if a = 0 then m.jumpTo d else m)
      | .jt, false => .done (m.vmOp1 d fun a m => if a ≠ 0 then m.jumpTo d else m)
      | .jt, true => .done (m.pop1 fun a m => if a ≠ 0 then m.jumpTo d else m)
      | .dup, false => .done (m.pop1 fun a m => (m.push a).push a)
      | .rnd, false => .done (m.random.2.setR m.random.1)
      | .rnd, true => .done (m.random.2.push m.random.1)
      | .time, false => .done (m.now.2.setR m.now.1)
      | .time, true => .done (m.now.2.push m.now.1)
      | .mov, false => .done (m.vmOp3 d fun a b c m => m.mov a b c)
      | .cmp, false => .done (m.vmOp3 d fun a b c m => m.cmp a b c)
      | .fil, false => .done (m.vmOp3 d fun a b c m => m.fil a b c)
      | .ldb, false => .done (m.vmOp1 d fun a m => m.putR (m.ldb a))
      | .ldb, true => .done (m.pop1 fun a m => m.putStack (m.ldb a))
      | .stb, false => .done (m.vmOp2 d fun a b m => m.stb a b)
      | .stb, true => .done (m.pop2 fun a b m => m.stb a b)
      | .assert, false => .done (m.vmOp1 d fun a m => if a = 0 then m.fault .abort else m)
      | .assert, true => .done (m.pop1 fun a m => if a = 0 ∧ m.term = .ok then m.fault .abort else m)
      -- no row of the table leads here
      | _, _ => .done (m.fault .host)

end

end Machine

/-! ### The loop -/

/-- The members of `CesVM` that outlive a run, and the machine of this one. -/
structure FastCore where
  machine : Machine
  dtab : List Decoded
  epoch : UInt32

namespace FastCore

/-- `std::vector::resize`. -/
def resize (dtab : List Decoded) (n : Nat) : List Decoded :=
  dtab.take n ++ List.replicate (n - dtab.length) ({} : Decoded)

/-- The entry at an offset. -/
def entry (dtab : List Decoded) (pc : Nat) : Decoded := dtab.getD pc {}

/-- Make sure that the entry at `pc` exists and is of this run. -/
def lookup (c : FastCore) (pc : Nat) : List Decoded :=
  let dtab := if c.dtab.length ≤ pc then resize c.dtab c.machine.code.length else c.dtab
  if (entry dtab pc).epoch ≠ c.epoch then dtab.set pc (decodeAt c.machine.code c.epoch pc) else dtab

section

variable (lib : VmLib) (fees : VmFees)

/-- Dispatch on a decoded instruction. -/
def dispatch (d : Decoded) (pc : UInt64) (m : Machine) : Vm Machine :=
  let m := m.setPc d.nextPc.toUInt64
  match d.h with
  | .slow => Machine.stepSlow lib fees (m.setPc pc)
  | .op o stack => Machine.fastOp lib fees d o stack m

/-- One turn of `runFast`. -/
def turn (c : FastCore) : Vm (Turn FastCore) :=
  let m := c.machine
  if m.term ≠ .ok ∨ m.code.length ≤ m.pc.toNat then .done (.stop c)
  else
    let pc := m.pc
    let dtab := c.lookup pc.toNat
    let r := m.tick.billOp
    if r.1 then
      (dispatch lib fees (entry dtab pc.toNat) pc r.2).map fun m => .next ⟨m, dtab, c.epoch⟩
    else .done (.stop ⟨r.2.setPc (pc + 1), dtab, c.epoch⟩)

/-- A new epoch; when the counter wraps, the table is cleared. -/
def start (dtab : List Decoded) (epoch : UInt32) (m : Machine) : FastCore :=
  let c : FastCore := if epoch + 1 = 0 then ⟨m, [], 1⟩ else ⟨m, dtab, epoch + 1⟩
  if c.dtab.length < m.code.length then { c with dtab := resize c.dtab m.code.length } else c

end

end FastCore

/-- `runFast` on a `CesVM` with the table and the epoch its earlier runs left. -/
def runFast (lib : VmLib) (fees : VmFees) (dtab : List Decoded) (epoch : UInt32) (fuel : Nat) (m : Machine) :
    Vm (Option FastCore) :=
  Program.loop (FastCore.turn lib fees) fuel (FastCore.start dtab epoch m)

/-! ### The program of a request -/

/-- What `executeVmRun` takes over from the interpreter. -/
def CesVMResult.outcome (r : CesVMResult) : VmResult := ⟨r.error, r.budgetUsed, r.output⟩

/-- The code of a request on a new `CesVM`. The fuel is never used up on the server's host
(`interpret_stops`). -/
def interpret (lib : VmLib) (rng clock : Stream' UInt64) (s : CesServer) (req : VmRunRequest) : VmProgram :=
  (executeWith (runFast lib s.vmFees [] 0 (req.budget.toNat + req.refillCeiling.toNat + 1)) FastCore.machine
    req rng clock).map fun r => (r.map CesVMResult.outcome).getD ⟨.host, 0, []⟩

def plainLib : VmLib := ⟨fun _ => ByteArr.zero 32, 1200⟩

/-- The interpreter with a fixed random source and clock, for runs of given code. -/
def bytecode : CesServer → VmRunRequest → VmProgram := interpret plainLib (Stream'.const 0) (Stream'.const 0)

end Ces
