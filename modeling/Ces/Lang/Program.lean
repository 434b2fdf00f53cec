import Ces.Vm.Fast

/-!
# The program builder

`VmProgram` of `vmprogram.cpp`: the bump allocator of scratch cells, labels, and the emitting methods both front
ends lower to. An instruction is an opcode byte, its operands and for a jump two placeholder bytes, which
`buildBytes` patches with the address of the label. `Instr` is what one emitting call asks for; the builder's bytes
are the concatenation of what the calls encode to (`VmProgram.Holds`), and so is the built code, with the addresses
in place (`Built`).

The second half is the decoder's side: `read` and `readTarget` on encoded operands, and `decodeAt` on an encoded
instruction.
-/

namespace Ces.Lang

open Ces.Lib

/-! ### Scratch cells -/

def cesvmRegSize : UInt64 := 16

structure Region where
  cell : UInt64
  count : UInt64
  deriving DecidableEq

/-- The cells of a region. -/
def Region.Covers (r : Region) (k : Nat) : Prop := r.cell.toNat ≤ k ∧ k < r.cell.toNat + r.count.toNat

/-- `alloc`, on the bump cursor. -/
def alloc (scratchTop count : UInt64) : Option (Region × UInt64) :=
  if count = 0 then none
  else if 752 < scratchTop + count then none
  else some (⟨scratchTop, count⟩, scratchTop + count)

def allocAll : UInt64 → List UInt64 → Option (List Region)
  | _, [] => some []
  | top, count :: counts => do
    let (r, top) ← alloc top count
    let rs ← allocAll top counts
    some (r :: rs)

/-- A declaration that takes cells: `let x;` or `let x[n];`. -/
inductive Let where
  | cell
  | region (n : UInt64)

/-- A source, as far as the allocator sees it: the parameter counts of the functions and the `let`s in the order
they are compiled, or the sizes of the `.alloc` directives. -/
inductive Source where
  | cesl (params : List Nat) (lets : List Let)
  | casm (allocs : List UInt64)

def kMaxTmp : UInt64 := 12

/-- What the front ends ask the allocator for; the temporaries come first. -/
def Source.requests : Source → List UInt64
  | .cesl params lets =>
    kMaxTmp :: (params.flatMap fun n => List.replicate n 1) ++ lets.map fun
      | .cell => 1
      | .region n => n
  | .casm allocs => allocs

/-- The regions of a source the allocator accepts. -/
def Source.regions (s : Source) : Option (List Region) := allocAll cesvmRegSize s.requests

/-- Regions in the scratch range, none empty and no two with a cell in common. -/
structure Separate (rs : List Region) : Prop where
  nonempty : ∀ r ∈ rs, 0 < r.count.toNat
  inside : ∀ r ∈ rs, ∀ k, r.Covers k → cesvmRegSize.toNat ≤ k ∧ k < ioInputLen.val
  disjoint : rs.Pairwise fun a b => ∀ k, ¬ (a.Covers k ∧ b.Covers k)

theorem alloc_eq_some {top count top' : UInt64} {r : Region} (h : alloc top count = some (r, top')) :
    r = ⟨top, count⟩ ∧ top' = top + count ∧ 0 < count.toNat ∧ (top + count).toNat ≤ 752 := by
  unfold alloc at h
  split_ifs at h with hzero hover
  obtain ⟨rfl, rfl⟩ : ⟨top, count⟩ = r ∧ top + count = top' := by simpa using h
  refine ⟨rfl, rfl, ?_, ?_⟩
  · rw [← UInt64.toNat_inj] at hzero
    exact Nat.pos_of_ne_zero hzero
  · rw [UInt64.lt_iff_toNat_lt] at hover
    exact Nat.not_lt.mp hover

/-- While no request is larger than the range, the cursor only moves up and each region lies behind the earlier ones. -/
theorem allocAll_separate {counts : List UInt64} (hsmall : ∀ c ∈ counts, c.toNat ≤ 752) :
    ∀ {top : UInt64} {rs : List Region}, top.toNat ≤ 752 → allocAll top counts = some rs →
      (∀ r ∈ rs, top.toNat ≤ r.cell.toNat ∧ 0 < r.count.toNat ∧ r.cell.toNat + r.count.toNat ≤ 752) ∧
        rs.Pairwise fun a b => a.cell.toNat + a.count.toNat ≤ b.cell.toNat := by
  induction counts with
  | nil =>
    intro top rs _ h
    obtain rfl : [] = rs := Option.some.inj h
    simp
  | cons count counts ih =>
    intro top rs htop h
    simp only [allocAll, Option.bind_eq_bind, Option.bind_eq_some_iff, Option.some.injEq] at h
    obtain ⟨⟨r, top'⟩, halloc, rs', hrest, rfl⟩ := h
    obtain ⟨rfl, rfl, hpos, hend⟩ := alloc_eq_some halloc
    have hcount := hsmall count List.mem_cons_self
    have hsum : (top + count).toNat = top.toNat + count.toNat := by
      rw [UInt64.toNat_add, Nat.mod_eq_of_lt (by omega)]
    rw [hsum] at hend
    obtain ⟨hall, hpair⟩ := ih (fun c hc => hsmall c (List.mem_cons_of_mem _ hc))
      (show (top + count).toNat ≤ 752 by omega) hrest
    rw [hsum] at hall
    refine ⟨?_, List.pairwise_cons.mpr ⟨fun r hr => (hall r hr).1, hpair⟩⟩
    intro r hr
    rcases List.mem_cons.mp hr with rfl | hr
    · exact ⟨Nat.le_refl _, hpos, hend⟩
    · obtain ⟨hle, hne, hin⟩ := hall r hr
      exact ⟨by omega, hne, hin⟩

theorem map_count_allocAll {counts : List UInt64} : ∀ {top : UInt64} {rs : List Region},
    allocAll top counts = some rs → rs.map Region.count = counts := by
  induction counts with
  | nil =>
    intro top rs h
    obtain rfl : [] = rs := Option.some.inj h
    rfl
  | cons count counts ih =>
    intro top rs h
    simp only [allocAll, Option.bind_eq_bind, Option.bind_eq_some_iff, Option.some.injEq] at h
    obtain ⟨⟨r, top'⟩, halloc, rs', hrest, rfl⟩ := h
    obtain ⟨rfl, -, -, -⟩ := alloc_eq_some halloc
    rw [List.map_cons, ih hrest]

/-- The cells of an accepted program are as they should be exactly when no declared size exceeds the range: the
bound check adds in 64 bits, and a size near `2 ^ 64` takes the cursor back. -/
theorem separate_regions_iff (s : Source) (rs : List Region) (h : s.regions = some rs) :
    Separate rs ↔ ∀ n ∈ s.requests, n.toNat ≤ 752 := by
  constructor
  · intro hsep n hn
    rw [← map_count_allocAll h] at hn
    obtain ⟨r, hr, rfl⟩ := List.mem_map.mp hn
    have hpos := hsep.nonempty r hr
    have hlast := (hsep.inside r hr (r.cell.toNat + r.count.toNat - 1) ⟨by omega, by omega⟩).2
    have hinput : ioInputLen.val = 752 := rfl
    omega
  · intro hsmall
    obtain ⟨hall, hpair⟩ := allocAll_separate hsmall (by decide) h
    refine ⟨fun r hr => (hall r hr).2.1, fun r hr k hk => ?_, hpair.imp fun hab k hk => ?_⟩
    · obtain ⟨hle, -, hin⟩ := hall r hr
      have hreg : cesvmRegSize.toNat = 16 := rfl
      have hinput : ioInputLen.val = 752 := rfl
      exact ⟨Nat.le_trans hle hk.1, by have := hk.2; omega⟩
    · have hb := hk.2.1
      have ha := hk.1.2
      omega

theorem separate_two_regions :
    Separate [⟨16, 4⟩, ⟨20, 1⟩] ↔ ∀ n ∈ (Source.casm [4, 1]).requests, n.toNat ≤ 752 :=
  separate_regions_iff (.casm [4, 1]) _ (by decide)

/-- A region of `2 ^ 64 - 1` cells takes the cursor one cell back, into the region before it. -/
theorem alloc_wraps :
    (Source.casm [4, 0xFFFFFFFFFFFFFFFF, 1]).regions = some [⟨16, 4⟩, ⟨20, 0xFFFFFFFFFFFFFFFF⟩, ⟨19, 1⟩] ∧
      ¬ Separate [⟨16, 4⟩, ⟨20, 0xFFFFFFFFFFFFFFFF⟩, ⟨19, 1⟩] := by
  refine ⟨by decide, fun h => ?_⟩
  have hpair := h.disjoint
  simp only [List.pairwise_cons, List.mem_cons] at hpair
  refine hpair.1 ⟨19, 1⟩ (by simp) 19 ⟨⟨?_, ?_⟩, ?_, ?_⟩
  all_goals decide

/-! ### Instructions -/

/-- An operand: a value, or a cell to dereference. -/
structure VmVal where
  value : UInt64
  deref : Bool

def Imm (value : UInt64) : VmVal := ⟨value, false⟩
def Ref (cell : UInt64) : VmVal := ⟨cell, true⟩

abbrev VmLabel := Nat

/-- The byte of an opcode, or of its stack form. -/
def opByte (op : Opcode) (stack : Bool) : UInt8 :=
  UInt8.ofNat (Opcode.all.idxOf op) ||| if stack then 0x80 else 0

def regPtrBit (v : VmVal) : UInt8 := if v.deref then 0x80 else 0

/-- The loop of `emitVal`: how many bytes a wide value takes. -/
def wideBytes (value : UInt64) : Nat → Nat → UInt64 → Nat
  | 0, bytes, _ => bytes
  | left + 1, bytes, limit => if limit ≤ value then wideBytes value left (bytes + 1) (limit <<< 8) else bytes

/-- What `emitVal` appends: the short form when the value has six bits, or the least number of bytes that holds it. -/
def encodeVal (v : VmVal) : Bytes :=
  if v.value ≤ 63 then [0x40 ||| v.value.toUInt8 ||| regPtrBit v]
  else
    let bytes := wideBytes v.value 7 1 0x100
    (UInt8.ofNat bytes ||| regPtrBit v) :: leBytes bytes v.value.toNat

/-- One emitted instruction. The operands of a variadic syscall begin with its number and the number of arguments. -/
structure Instr where
  op : Opcode
  stack : Bool := false
  args : List VmVal := []
  target : Option VmLabel := none

namespace Instr

variable (i : Instr)

def front : Bytes := opByte i.op i.stack :: i.args.flatMap encodeVal

/-- As emitted, with two zeros where the label goes. -/
def raw : Bytes := i.front ++ i.target.elim [] fun _ => [0, 0]

def bytes (addr : VmLabel → UInt16) (i : Instr) : Bytes := i.front ++ i.target.elim [] fun l => leBytes 2 (addr l).toNat

def size : Nat := i.front.length + i.target.elim 0 fun _ => 2

theorem length_raw : i.raw.length = i.size := by
  cases h : i.target <;> simp [raw, size, h]

theorem length_bytes (addr : VmLabel → UInt16) : (i.bytes addr).length = i.size := by
  cases h : i.target <;> simp [bytes, size, h, leBytes_length]

end Instr

/-- The builder. A label that is not placed has no offset. -/
structure VmProgram where
  code : Bytes := []
  labels : List (Option Nat) := []
  relocs : List (Nat × VmLabel) := []
  baseOffset : UInt64 := 0

namespace VmProgram

variable (p : VmProgram)

def emitOpcode (op : UInt8) : VmProgram := { p with code := p.code ++ [op] }

def emitVal (v : VmVal) : VmProgram := { p with code := p.code ++ encodeVal v }

def emitLabelRef (l : VmLabel) : Option VmProgram :=
  if p.labels.length ≤ l then none
  else some { p with relocs := p.relocs ++ [(p.code.length, l)], code := p.code ++ [0, 0] }

/-- An opcode and its operands. -/
def emitPlain (op : Opcode) (stack : Bool) (args : List VmVal) : VmProgram :=
  args.foldl emitVal (p.emitOpcode (opByte op stack))

def label : VmLabel × VmProgram := (p.labels.length, { p with labels := p.labels ++ [none] })

def place (l : VmLabel) : Option VmProgram :=
  match p.labels[l]? with
  | some none => some { p with labels := p.labels.set l (some p.code.length) }
  | _ => none

/-- `jmp`, `call`, `jf`, `jt` and the stack forms of the last two. -/
def jump (op : Opcode) (stack : Bool) (args : List VmVal) (l : VmLabel) : Option VmProgram :=
  (p.emitPlain op stack args).emitLabelRef l

/-- The stack forms without inline operands. -/
def stackForms : List Opcode :=
  [.add, .sub, .mul, .div, .mod, .or, .and, .andl, .xor, .not, .lnot, .shl, .shr, .sar, .eq, .ne, .gt, .lt, .ge,
    .le, .neg,
    .orl, .rnd, .time, .ldb, .stb, .call, .slt, .sgt, .sge, .sle, .addx, .subx, .mulx, .assert]

def stackOp (op : Opcode) : Option VmProgram := if op ∈ stackForms then some (p.emitPlain op true []) else none

/-- `rawOp`: the caller answers for the number of operands. -/
def rawOp (op : Opcode) (operands : List VmVal) : Option VmProgram :=
  if op ∈ [.jmp, .call, .jf, .jt, .hostv, .hostxv] then none else some (p.emitPlain op false operands)

/-- `hostv` and `hostxv`. -/
def hostv (op : Opcode) (num : UInt64) (args : List VmVal) : Option VmProgram :=
  if cesvmMaxHostvArgs < args.length then none
  else some (p.emitPlain op false (Imm num :: Imm (UInt64.ofNat args.length) :: args))

/-- The address of a label, which has to be placed and to fit in two bytes. -/
def address (l : VmLabel) : Option UInt16 :=
  match p.labels[l]? with
  | some (some offset) =>
    let target := UInt64.ofNat offset + p.baseOffset
    if 0xFFFF < target then none else some target.toUInt16
  | _ => none

def pokeLE (code : Bytes) (offset : Nat) (v : UInt16) : Bytes :=
  code.take offset ++ leBytes 2 v.toNat ++ code.drop (offset + 2)

/-- One turn of `resolveLabelsOrThrow`. -/
def patch (code : Bytes) (r : Nat × VmLabel) : Option Bytes := (p.address r.2).map (pokeLE code r.1)

def resolveLabels : Option Bytes := p.relocs.foldlM p.patch p.code

def buildBytes : Option Bytes := do
  let code ← p.resolveLabels
  if cesvmMaxCode < code.length then none else some code

end VmProgram

/-- A call of a builder method. `plain` is `rawOp` and the methods of fixed arity (`set` is `plain .set [dst, src]`). -/
inductive Emit where
  | label
  | place (l : VmLabel)
  | plain (op : Opcode) (operands : List VmVal)
  | jmp (l : VmLabel)
  | call (l : VmLabel)
  | jf (cond : VmVal) (l : VmLabel)
  | jt (cond : VmVal) (l : VmLabel)
  | jfStack (l : VmLabel)
  | jtStack (l : VmLabel)
  | stackOp (op : Opcode)
  | hostv (num : UInt64) (args : List VmVal)
  | hostxv (num : UInt64) (args : List VmVal)

namespace Emit

def run (p : VmProgram) : Emit → Option VmProgram
  | .label => some p.label.2
  | .place l => p.place l
  | .plain op operands => p.rawOp op operands
  | .jmp l => p.jump .jmp false [] l
  | .call l => p.jump .call false [] l
  | .jf cond l => p.jump .jf false [cond] l
  | .jt cond l => p.jump .jt false [cond] l
  | .jfStack l => p.jump .jf true [] l
  | .jtStack l => p.jump .jt true [] l
  | .stackOp op => p.stackOp op
  | .hostv num args => p.hostv .hostv num args
  | .hostxv num args => p.hostv .hostxv num args

def runAll : VmProgram → List Emit → Option VmProgram
  | p, [] => some p
  | p, e :: es => (e.run p).bind fun p => runAll p es

/-- The instruction a call asks for. -/
def instr? : Emit → Option Instr
  | .label => none
  | .place _ => none
  | .plain op operands => some { op := op, args := operands }
  | .jmp l => some { op := .jmp, target := some l }
  | .call l => some { op := .call, target := some l }
  | .jf cond l => some { op := .jf, args := [cond], target := some l }
  | .jt cond l => some { op := .jt, args := [cond], target := some l }
  | .jfStack l => some { op := .jf, stack := true, target := some l }
  | .jtStack l => some { op := .jt, stack := true, target := some l }
  | .stackOp op => some { op := op, stack := true }
  | .hostv num args => some { op := .hostv, args := Imm num :: Imm (UInt64.ofNat args.length) :: args }
  | .hostxv num args => some { op := .hostxv, args := Imm num :: Imm (UInt64.ofNat args.length) :: args }

end Emit

/-! ### What the builder holds -/

namespace VmProgram

/-- The relocations of instructions that start at an offset. -/
def relocsOf : Nat → List Instr → List (Nat × VmLabel)
  | _, [] => []
  | pos, i :: is => (i.target.elim [] fun l => [(pos + i.front.length, l)]) ++ relocsOf (pos + i.size) is

/-- The builder holds these instructions. -/
structure Holds (p : VmProgram) (is : List Instr) : Prop where
  code : p.code = is.flatMap Instr.raw
  relocs : p.relocs = relocsOf 0 is

theorem relocsOf_append (is js : List Instr) (pos : Nat) :
    relocsOf pos (is ++ js) = relocsOf pos is ++ relocsOf (pos + (is.flatMap Instr.raw).length) js := by
  induction is generalizing pos with
  | nil => simp [relocsOf]
  | cons i is ih =>
    rw [List.cons_append, relocsOf, relocsOf, ih, List.flatMap_cons, List.length_append, i.length_raw,
      List.append_assoc,
      Nat.add_assoc]

theorem foldl_emitVal (p : VmProgram) (args : List VmVal) :
    args.foldl emitVal p = { p with code := p.code ++ args.flatMap encodeVal } := by
  induction args generalizing p with
  | nil => simp
  | cons v args ih => simp [ih, emitVal]

theorem emitPlain_eq (p : VmProgram) (op : Opcode) (stack : Bool) (args : List VmVal) :
    p.emitPlain op stack args =
      { p with code := p.code ++ Instr.front { op := op, stack := stack, args := args } } := by
  simp [emitPlain, foldl_emitVal, emitOpcode, Instr.front]

/-- The builder after an instruction. -/
def after (p : VmProgram) (i : Instr) : VmProgram :=
  { p with code := p.code ++ i.raw, relocs := p.relocs ++ relocsOf p.code.length [i] }

theorem emitPlain_eq_after (p : VmProgram) (op : Opcode) (stack : Bool) (args : List VmVal) :
    p.emitPlain op stack args = p.after { op := op, stack := stack, args := args } := by
  simp [emitPlain_eq, after, Instr.raw, relocsOf]

theorem jump_eq_after {p p' : VmProgram} {op : Opcode} {stack : Bool} {args : List VmVal} {l : VmLabel}
    (h : p.jump op stack args l = some p') :
    p' = p.after { op := op, stack := stack, args := args, target := some l } := by
  simp only [jump, emitLabelRef] at h
  split_ifs at h
  rw [← Option.some.inj h, emitPlain_eq]
  simp [after, Instr.raw, relocsOf, Instr.front]

/-- A call that returns appends its instruction, and one without an instruction leaves the code alone. -/
theorem run_code {p p' : VmProgram} {e : Emit} (h : e.run p = some p') :
    match e.instr? with
    | none => p'.code = p.code ∧ p'.relocs = p.relocs ∧ p'.baseOffset = p.baseOffset
    | some i => p' = p.after i := by
  cases e with
  | label =>
    obtain rfl := Option.some.inj h
    exact ⟨rfl, rfl, rfl⟩
  | place l =>
    simp only [Emit.run, place] at h
    split at h
    · obtain rfl := Option.some.inj h
      exact ⟨rfl, rfl, rfl⟩
    · simp at h
  | plain op operands =>
    simp only [Emit.run, rawOp] at h
    split_ifs at h
    rw [← Option.some.inj h]
    exact emitPlain_eq_after p op false operands
  | jmp l => exact jump_eq_after h
  | call l => exact jump_eq_after h
  | jf cond l => exact jump_eq_after h
  | jt cond l => exact jump_eq_after h
  | jfStack l => exact jump_eq_after h
  | jtStack l => exact jump_eq_after h
  | stackOp op =>
    simp only [Emit.run, stackOp] at h
    split_ifs at h
    rw [← Option.some.inj h]
    exact emitPlain_eq_after p op true []
  | hostv num args =>
    simp only [Emit.run, hostv] at h
    split_ifs at h
    rw [← Option.some.inj h]
    exact emitPlain_eq_after p .hostv false _
  | hostxv num args =>
    simp only [Emit.run, hostv] at h
    split_ifs at h
    rw [← Option.some.inj h]
    exact emitPlain_eq_after p .hostxv false _

theorem Holds.after {p : VmProgram} {is : List Instr} (h : p.Holds is) (i : Instr) : (p.after i).Holds (is ++ [i]) where
  code := by
    rw [List.flatMap_append, ← h.code]
    simp [VmProgram.after]
  relocs := by
    rw [relocsOf_append, ← h.code, ← h.relocs, Nat.zero_add]
    rfl

theorem Holds.run {p p' : VmProgram} {is : List Instr} {e : Emit} (hp : p.Holds is) (h : e.run p = some p') :
    p'.Holds (is ++ e.instr?.toList) := by
  have hcode := run_code h
  cases he : e.instr? with
  | none =>
    rw [he] at hcode
    obtain ⟨hc, hr, -⟩ := hcode
    rw [Option.toList_none, List.append_nil]
    exact ⟨hc.trans hp.code, hr.trans hp.relocs⟩
  | some i =>
    rw [he] at hcode
    obtain rfl : p' = p.after i := hcode
    exact hp.after i

theorem Holds.runAll {es : List Emit} : ∀ {p p' : VmProgram} {is : List Instr}, p.Holds is →
    Emit.runAll p es = some p' → p'.Holds (is ++ es.filterMap Emit.instr?) := by
  induction es with
  | nil =>
    intro p p' is hp h
    obtain rfl := Option.some.inj h
    simpa using hp
  | cons e es ih =>
    intro p p' is hp h
    simp only [Emit.runAll, Option.bind_eq_some_iff] at h
    obtain ⟨q, hq, hrest⟩ := h
    have hall := ih (hp.run hq) hrest
    cases he : e.instr? with
    | none =>
      rw [List.filterMap_cons_none he]
      simpa [he] using hall
    | some i =>
      rw [List.filterMap_cons_some he]
      simpa [he] using hall

/-- The address of a label that has one. -/
def addr (p : VmProgram) (l : VmLabel) : UInt16 := (p.address l).getD 0

theorem pokeLE_append (lead mid trail : Bytes) (v : UInt16) (hmid : mid.length = 2) :
    pokeLE (lead ++ mid ++ trail) lead.length v = lead ++ leBytes 2 v.toNat ++ trail := by
  have hfront : (lead ++ mid).length = lead.length + 2 := by rw [List.length_append, hmid]
  have htake : (lead ++ mid ++ trail).take lead.length = lead := by rw [List.append_assoc, List.take_left]
  rw [pokeLE, ← hfront, List.drop_left, htake]

/-- Patching replaces the placeholders, each where its instruction lies. -/
theorem foldlM_patch {p : VmProgram} {is : List Instr} : ∀ {lead trail code : Bytes},
    (relocsOf lead.length is).foldlM p.patch (lead ++ is.flatMap Instr.raw ++ trail) = some code →
      code = lead ++ is.flatMap (Instr.bytes p.addr) ++ trail ∧
        ∀ i ∈ is, ∀ l, i.target = some l → p.address l = some (p.addr l) := by
  induction is with
  | nil =>
    intro lead trail code h
    exact ⟨(Option.some.inj h).symm, by simp⟩
  | cons i is ih =>
    intro lead trail code h
    have hnext : (lead ++ i.bytes p.addr).length = lead.length + i.size := by
      rw [List.length_append, i.length_bytes]
    -- once the first instruction is patched it belongs to what lies before the rest
    have hstep : (relocsOf (lead.length + i.size) is).foldlM p.patch
          (lead ++ i.bytes p.addr ++ is.flatMap Instr.raw ++ trail) = some code ∧
        ∀ l, i.target = some l → p.address l = some (p.addr l) := by
      rw [relocsOf] at h
      cases ht : i.target with
      | none =>
        refine ⟨?_, by simp⟩
        simp only [ht, Option.elim_none, List.nil_append, List.flatMap_cons, Instr.raw, List.append_nil] at h
        simpa [Instr.bytes, ht] using h
      | some l =>
        simp only [ht, Option.elim_some, List.singleton_append, List.foldlM_cons, Option.bind_eq_bind,
          Option.bind_eq_some_iff] at h
        obtain ⟨mid, hpatch, h⟩ := h
        obtain ⟨a, haddr, hmid⟩ := Option.map_eq_some_iff.mp hpatch
        have ha : p.addr l = a := by rw [addr, haddr, Option.getD_some]
        have hsplit : lead ++ (i :: is).flatMap Instr.raw ++ trail =
            lead ++ i.front ++ [0, 0] ++ (is.flatMap Instr.raw ++ trail) := by
          simp [Instr.raw, ht]
        rw [hsplit, ← List.length_append, pokeLE_append _ _ _ _ rfl] at hmid
        refine ⟨?_, ?_⟩
        · rw [← h, ← hmid]
          simp [Instr.bytes, ht, ha]
        · intro l' hl'
          obtain rfl := Option.some.inj hl'
          rw [haddr, ha]
    rw [← hnext] at hstep
    obtain ⟨hcode, hrest⟩ := ih hstep.1
    refine ⟨by rw [hcode, List.flatMap_cons, List.append_assoc lead], ?_⟩
    intro j hj l hl
    rcases List.mem_cons.mp hj with rfl | hj
    · exact hstep.2 l hl
    · exact hrest j hj l hl

/-- The built code: every instruction encoded, with the addresses of its label. -/
theorem Holds.buildBytes {p : VmProgram} {is : List Instr} {code : Bytes} (hp : p.Holds is)
    (h : p.buildBytes = some code) :
    code = is.flatMap (Instr.bytes p.addr) ∧ code.length ≤ cesvmMaxCode ∧
      ∀ i ∈ is, ∀ l, i.target = some l → p.address l = some (p.addr l) := by
  simp only [VmProgram.buildBytes, Option.bind_eq_bind, Option.bind_eq_some_iff] at h
  obtain ⟨code', hresolve, h⟩ := h
  split_ifs at h with hlong
  obtain rfl := Option.some.inj h
  rw [resolveLabels, hp.code, hp.relocs] at hresolve
  have hpatched : (relocsOf ([] : Bytes).length is).foldlM p.patch ([] ++ is.flatMap Instr.raw ++ []) = some code' := by
    simpa using hresolve
  obtain ⟨hcode, hlabels⟩ := foldlM_patch hpatched
  exact ⟨by simpa using hcode, Nat.not_lt.mp hlong, hlabels⟩

end VmProgram

end Ces.Lang
