import Ces.Lang.Program
import Ces.Lib.Layout
import Ces.Vm.Lockstep

/-!
# Encoded operands read back

The decoder's side of the builder. An encoded operand is read as the value or the cell it names (`read_encodeVal`),
whatever the minimal width; a label is read as its address; and `decodeAt` on an encoded instruction fills the entry
of the table (`decodeAt_bytes`). The positions line up because the built code is the concatenation of the encoded
instructions.
-/

namespace Ces.Lang

open Ces.Lib Machine

/-! ### Control bytes -/

theorem control_short : ∀ n : Fin 64, ∀ d : Bool,
    let c := 0x40 ||| UInt8.ofNat n.val ||| if d then 0x80 else 0
    isShortVal c = true ∧ shortVal c = UInt8.ofNat n.val ∧ isRegPtr c = d := by decide +kernel

theorem control_wide : ∀ n : Fin 9, ∀ d : Bool,
    let c := UInt8.ofNat n.val ||| if d then 0x80 else 0
    isShortVal c = false ∧ shortVal c = UInt8.ofNat n.val ∧ isRegPtr c = d := by decide +kernel

theorem ofByte_opByte (op : Opcode) (stack : Bool) : Opcode.ofByte (opByte op stack) = some (op, stack) := by
  cases op <;> cases stack <;> rfl

theorem wideBytes_spec (value : UInt64) :
    0 < wideBytes value 7 1 0x100 ∧ wideBytes value 7 1 0x100 ≤ 8 ∧ value.toNat < 256 ^ wideBytes value 7 1 0x100 := by
  have hvalue := value.toNat_lt
  simp only [wideBytes, UInt64.le_iff_toNat_le]
  split_ifs with h1 h2 h3 h4 h5 h6 h7
  all_goals refine ⟨by decide, by decide, ?_⟩
  · omega
  · exact Nat.not_le.mp h7
  · exact Nat.not_le.mp h6
  · exact Nat.not_le.mp h5
  · exact Nat.not_le.mp h4
  · exact Nat.not_le.mp h3
  · exact Nat.not_le.mp h2
  · exact Nat.not_le.mp h1

/-! ### Bytes at a position -/

section

variable {code rest : Bytes} {pos : Nat}

theorem codeByte_of_drop {b : UInt8} (h : code.drop pos = b :: rest) : codeByte code pos = b := by
  have hget := congrArg (·[0]?) h
  simp only [List.getElem?_drop, Nat.add_zero, List.getElem?_cons_zero] at hget
  simp [codeByte, hget]

theorem length_of_drop {bytes : Bytes} (h : code.drop pos = bytes ++ rest) (hne : 0 < bytes.length) :
    pos + bytes.length ≤ code.length := by
  have hlen := congrArg List.length h
  rw [List.length_drop, List.length_append] at hlen
  omega

theorem drop_of_drop {bytes : Bytes} (h : code.drop pos = bytes ++ rest) : code.drop (pos + bytes.length) = rest := by
  rw [← List.drop_drop, h, List.drop_left]

/-- The decoder finds the value of an operand, and the bit that asks to dereference it. -/
theorem decodeValue_encodeVal {v : VmVal} (h : code.drop pos = encodeVal v ++ rest) :
    pos < code.length ∧ isRegPtr (codeByte code pos) = v.deref ∧
      decodeValue code (codeByte code pos) (pos + 1) = some (v.value, pos + (encodeVal v).length) := by
  by_cases hshort : v.value ≤ 63
  · have hbyte : encodeVal v = [0x40 ||| v.value.toUInt8 ||| regPtrBit v] := by rw [encodeVal, if_pos hshort]
    rw [hbyte] at h
    have hval : v.value.toNat < 64 := Nat.lt_succ_of_le (UInt64.le_iff_toNat_le.mp hshort)
    have hlow : v.value.toUInt8 = UInt8.ofNat v.value.toNat := by rw [← UInt64.toUInt8_ofNat', UInt64.ofNat_toNat]
    obtain ⟨hs, hv, hr⟩ := control_short ⟨v.value.toNat, hval⟩ v.deref
    have hend := length_of_drop h (by simp)
    rw [List.length_singleton] at hend
    rw [codeByte_of_drop h, hbyte, hlow]
    refine ⟨hend, hr, ?_⟩
    have hback : (UInt8.ofNat v.value.toNat).toUInt64 = v.value := by
      apply UInt64.toNat_inj.mp
      rw [UInt8.toNat_toUInt64, UInt8.toNat_ofNat_of_lt' (by show v.value.toNat < 256; omega)]
    unfold decodeValue regPtrBit
    dsimp only at hs hv ⊢
    rw [if_pos hs, hv, hback]
    rfl
  · obtain ⟨hpos, hle, hfits⟩ := wideBytes_spec v.value
    have hbytes : encodeVal v =
        (UInt8.ofNat (wideBytes v.value 7 1 0x100) ||| regPtrBit v) :: leBytes (wideBytes v.value 7 1 0x100)
          v.value.toNat := by
      rw [encodeVal, if_neg hshort]
    rw [hbytes] at h ⊢
    generalize wideBytes v.value 7 1 0x100 = n at hpos hle hfits h
    obtain ⟨hs, hv, hr⟩ := control_wide ⟨n, by omega⟩ v.deref
    have hend := length_of_drop h (by simp)
    rw [List.length_cons, leBytes_length] at hend ⊢
    rw [List.cons_append] at h
    rw [codeByte_of_drop h]
    refine ⟨by omega, hr, ?_⟩
    have hpay : payload code (pos + 1) n = v.value := by
      have htail : code.drop (pos + 1) = leBytes n v.value.toNat ++ rest := by
        rw [← List.drop_drop, h, List.drop_one, List.tail_cons]
      have hlen := leBytes_length n v.value.toNat
      have htake : (leBytes n v.value.toNat ++ rest).take n = leBytes n v.value.toNat := List.take_left' hlen
      rw [payload, htail, htake, leNat_leBytes, Nat.mod_eq_of_lt hfits, UInt64.ofNat_toNat]
    have hn : (UInt8.ofNat n).toNat = n := UInt8.toNat_ofNat_of_lt' (by show n < 256; omega)
    have hsmall : ¬ 8 < UInt8.ofNat n := by
      rw [UInt8.lt_iff_toNat_lt, hn]
      exact Nat.not_lt.mpr hle
    unfold decodeValue regPtrBit
    dsimp only at hs hv ⊢
    rw [if_neg (by rw [hs]; simp), hv, if_neg hsmall, hn, if_neg (by omega), hpay]
    simp [Nat.add_assoc, Nat.add_comm 1 n]

theorem decodeOperand_encodeVal {v : VmVal} (hstatic : v.deref = true → v.value ≠ 0)
    (h : code.drop pos = encodeVal v ++ rest) :
    decodeOperand code pos = some (⟨v.value, v.deref⟩, pos + (encodeVal v).length) := by
  obtain ⟨hpos, hptr, hval⟩ := decodeValue_encodeVal h
  unfold decodeOperand
  rw [if_neg (by omega)]
  dsimp only
  rw [hval]
  dsimp only
  rw [hptr, if_neg (fun hzero => hstatic hzero.1 hzero.2)]

/-- A dereference of cell 0 is not decoded. -/
theorem decodeOperand_ref_zero (h : code.drop pos = encodeVal (Ref 0) ++ rest) : decodeOperand code pos = none := by
  obtain ⟨hpos, hptr, hval⟩ := decodeValue_encodeVal h
  unfold decodeOperand
  rw [if_neg (by omega)]
  dsimp only
  rw [hval]
  dsimp only
  rw [hptr, if_pos ⟨rfl, rfl⟩]

theorem decodeTail_leBytes {t : UInt16} (h : code.drop pos = leBytes 2 t.toNat ++ rest) :
    decodeTail code true pos = some (t, pos + 2) := by
  have hlen := length_of_drop h (by rw [leBytes_length]; omega)
  rw [leBytes_length] at hlen
  have htwo : leBytes 2 t.toNat = [UInt8.ofNat (t.toNat % 256), UInt8.ofNat (t.toNat / 256 % 256)] := rfl
  have hfirst : codeByte code pos = UInt8.ofNat (t.toNat % 256) := codeByte_of_drop (by rw [h, htwo]; rfl)
  have hsecond : codeByte code (pos + 1) = UInt8.ofNat (t.toNat / 256 % 256) :=
    codeByte_of_drop (by rw [← List.drop_drop, h, htwo]; rfl)
  have ht := t.toNat_lt
  unfold decodeTail
  rw [if_pos rfl, if_neg (by omega), hfirst, hsecond]
  have hword : ((UInt8.ofNat (t.toNat % 256)).toUInt16 ||| (UInt8.ofNat (t.toNat / 256 % 256)).toUInt16 <<< 8) = t := by
    apply UInt16.toNat_inj.mp
    rw [toNat_pair, UInt8.toNat_ofNat_of_lt' (by show _ < 256; omega),
      UInt8.toNat_ofNat_of_lt' (by show _ < 256; omega)]
    omega
  rw [hword]

theorem decodeOperands_encode {args : List VmVal} (hstatic : ∀ v ∈ args, v.deref = true → v.value ≠ 0) :
    ∀ {pos : Nat}, code.drop pos = args.flatMap encodeVal ++ rest →
      decodeOperands code args.length pos =
        some (args.map fun v => ⟨v.value, v.deref⟩, pos + (args.flatMap encodeVal).length) := by
  induction args with
  | nil =>
    intro pos _
    rfl
  | cons v args ih =>
    intro pos h
    rw [List.flatMap_cons, List.append_assoc] at h
    have hfirst := decodeOperand_encodeVal (hstatic v List.mem_cons_self) h
    have hrest := ih (fun w hw => hstatic w (List.mem_cons_of_mem _ hw)) (drop_of_drop h)
    simp [decodeOperands, hfirst, hrest, Nat.add_assoc]

theorem decodeOperands_ref_zero {args : List VmVal} (hzero : Ref 0 ∈ args) :
    ∀ {pos : Nat}, code.drop pos = args.flatMap encodeVal ++ rest → decodeOperands code args.length pos = none := by
  induction args with
  | nil => simp at hzero
  | cons v args ih =>
    intro pos h
    rw [List.flatMap_cons, List.append_assoc] at h
    by_cases hv : v.deref = true → v.value ≠ 0
    · have hmem : Ref 0 ∈ args := by
        rcases List.mem_cons.mp hzero with rfl | hmem
        · exact absurd rfl (hv rfl)
        · exact hmem
      simp [decodeOperands, decodeOperand_encodeVal hv h, ih hmem (drop_of_drop h)]
    · have hzero : v = Ref 0 := by
        obtain ⟨value, deref⟩ := v
        simp only [Classical.not_imp, not_not] at hv
        rw [Ref, ← hv.1, ← hv.2]
      rw [hzero] at h
      simp [decodeOperands, hzero, decodeOperand_ref_zero h]

end

/-! ### Reading -/

theorem read_encodeVal {m : Machine} {v : VmVal} {rest : Bytes} (hfits : m.code.length ≤ cesvmMaxCode)
    (h : m.code.drop m.pc.toNat = encodeVal v ++ rest) :
    m.read = (m.setPc (UInt64.ofNat (m.pc.toNat + (encodeVal v).length))).resolve v.deref v.value := by
  obtain ⟨hpos, hptr, hval⟩ := decodeValue_encodeVal h
  rw [read_eq_of_value hfits hpos hval, hptr]

/-- `n` operands, read one after the other. -/
def readMany : Nat → Machine → List UInt64 × Machine
  | 0, m => ([], m)
  | n + 1, m =>
    let rest := readMany n m.read.2
    (m.read.1 :: rest.1, rest.2)

/-- What the emitted operands are to a machine that stands at the first: each is looked up with the program counter
behind it. -/
def sees : List VmVal → Machine → List UInt64 × Machine
  | [], m => ([], m)
  | v :: args, m =>
    let first := (m.setPc (UInt64.ofNat (m.pc.toNat + (encodeVal v).length))).resolve v.deref v.value
    let rest := sees args first.2
    (first.1 :: rest.1, rest.2)

theorem pc_resolve (m : Machine) (regptr : Bool) (val : UInt64) : (m.resolve regptr val).2.pc = m.pc := by
  unfold resolve load Machine.get
  split_ifs <;> rfl

theorem readMany_encode {args : List VmVal} {rest : Bytes} : ∀ {m : Machine}, m.code.length ≤ cesvmMaxCode →
    m.pc.toNat ≤ m.code.length → m.code.drop m.pc.toNat = args.flatMap encodeVal ++ rest →
      readMany args.length m = sees args m ∧ (sees args m).2.code = m.code ∧
        (sees args m).2.pc.toNat = m.pc.toNat + (args.flatMap encodeVal).length := by
  induction args with
  | nil =>
    intro m _ _ _
    exact ⟨rfl, rfl, rfl⟩
  | cons v args ih =>
    intro m hfits hin h
    rw [List.flatMap_cons, List.append_assoc] at h
    have hread := read_encodeVal hfits h
    set first := (m.setPc (UInt64.ofNat (m.pc.toNat + (encodeVal v).length))).resolve v.deref v.value with hfirst
    have hend : m.pc.toNat + (encodeVal v).length ≤ m.code.length := by
      have hlen := congrArg List.length h
      rw [List.length_drop, List.length_append] at hlen
      omega
    have hcode : first.2.code = m.code := code_resolve _ _ _
    have hpc : first.2.pc.toNat = m.pc.toNat + (encodeVal v).length := by
      have hsmall : m.code.length ≤ 8192 := hfits
      rw [hfirst, pc_resolve, pc_setPc, UInt64.toNat_ofNat_of_lt' (by simp only [UInt64.size]; omega)]
    obtain ⟨hmany, hcode', hpc'⟩ := ih (m := first.2) (by rw [hcode]; exact hfits) (by rw [hcode, hpc]; exact hend)
      (by rw [hcode, hpc]; exact drop_of_drop h)
    refine ⟨?_, hcode'.trans hcode, ?_⟩
    · simp only [List.length_cons, readMany, hread, hmany, sees]
      rfl
    · rw [List.flatMap_cons, List.length_append, ← Nat.add_assoc, ← hpc]
      exact hpc'

/-! ### Instructions -/

/-- The opcode takes these operands, and a label exactly when the instruction has one. -/
def Instr.Arity (i : Instr) : Prop :=
  (fastRow i.op i.stack).h = .op i.op i.stack ∧ (fastRow i.op i.stack).nops = i.args.length ∧
    (fastRow i.op i.stack).jumpTail = i.target.isSome

theorem kFastOpInfo_opByte (op : Opcode) (stack : Bool) : kFastOpInfo (opByte op stack) = fastRow op stack := by
  rw [kFastOpInfo, ofByte_opByte]
  cases stack <;> rfl

theorem size_eq (i : Instr) : i.size = 1 + (i.args.flatMap encodeVal).length + i.target.elim 0 fun _ => 2 := by
  rw [Instr.size, Instr.front, List.length_cons, Nat.add_comm 1]

section

variable {code rest : Bytes} {pos : Nat} {i : Instr} {addr : VmLabel → UInt16}

theorem drop_bytes (h : code.drop pos = i.bytes addr ++ rest) :
    codeByte code pos = opByte i.op i.stack ∧ code.drop (pos + 1) =
      i.args.flatMap encodeVal ++ ((i.target.elim [] fun l => leBytes 2 (addr l).toNat) ++ rest) := by
  rw [Instr.bytes, Instr.front, List.cons_append, List.cons_append] at h
  refine ⟨codeByte_of_drop h, ?_⟩
  rw [← List.drop_drop, h, List.drop_one, List.tail_cons, List.append_assoc]

/-- An entry of the table for the instruction. -/
theorem decodeAt_bytes (h : code.drop pos = i.bytes addr ++ rest) (harity : i.Arity)
    (hstatic : ∀ v ∈ i.args, v.deref = true → v.value ≠ 0) (epoch : UInt32) :
    decodeAt code epoch pos =
      { epoch := epoch, h := .op i.op i.stack, ops := i.args.map fun v => ⟨v.value, v.deref⟩
        nextPc := UInt16.ofNat (pos + i.size), target := i.target.elim 0 addr } := by
  obtain ⟨hop, hargs⟩ := drop_bytes h
  obtain ⟨hrow, hnops, htail⟩ := harity
  have hops := decodeOperands_encode hstatic hargs
  have hbody : decodeBody code (fastRow i.op i.stack) (pos + 1) =
      some (i.args.map fun v => ⟨v.value, v.deref⟩, i.target.elim 0 addr, pos + i.size) := by
    unfold decodeBody
    rw [hnops, hops]
    dsimp only
    rw [htail, size_eq]
    cases ht : i.target with
    | none => simp [decodeTail, Nat.add_assoc]
    | some l =>
      rw [ht] at hargs
      have hlabel := decodeTail_leBytes (drop_of_drop hargs)
      rw [Option.isSome_some, hlabel]
      simp [Nat.add_assoc]
  unfold decodeAt
  rw [hop, kFastOpInfo_opByte]
  dsimp only
  rw [hrow]
  dsimp only
  rw [hbody]

theorem decodeAt_slow {op : Opcode} {stack : Bool} (hop : codeByte code pos = opByte op stack)
    (hslow : (fastRow op stack).h = .slow) (epoch : UInt32) : decodeAt code epoch pos = { epoch := epoch } := by
  unfold decodeAt
  rw [hop, kFastOpInfo_opByte]
  dsimp only
  rw [hslow]

theorem decodeAt_ref_zero (h : code.drop pos = i.bytes addr ++ rest) (harity : i.Arity) (hzero : Ref 0 ∈ i.args)
    (epoch : UInt32) : decodeAt code epoch pos = { epoch := epoch } := by
  obtain ⟨hop, hargs⟩ := drop_bytes h
  obtain ⟨hrow, hnops, -⟩ := harity
  unfold decodeAt
  rw [hop, kFastOpInfo_opByte]
  dsimp only
  rw [hrow]
  dsimp only
  rw [decodeBody, hnops, decodeOperands_ref_zero hzero hargs]

end

/-! ### Every emitted instruction -/

theorem runAll_append {es : List Emit} : ∀ {p q : VmProgram} {fs : List Emit}, Emit.runAll p (es ++ fs) = some q →
    ∃ mid, Emit.runAll p es = some mid ∧ Emit.runAll mid fs = some q := by
  induction es with
  | nil =>
    intro p q fs h
    exact ⟨p, rfl, h⟩
  | cons e es ih =>
    intro p q fs h
    simp only [List.cons_append, Emit.runAll, Option.bind_eq_some_iff] at h ⊢
    obtain ⟨next, hnext, h⟩ := h
    obtain ⟨mid, hmid, hrest⟩ := ih h
    exact ⟨mid, ⟨next, hnext, hmid⟩, hrest⟩

theorem holds_runAll {base : UInt64} {es : List Emit} {p : VmProgram}
    (h : Emit.runAll { baseOffset := base } es = some p) :
    p.Holds (es.filterMap Emit.instr?) := by
  have hempty : VmProgram.Holds { baseOffset := base } [] := ⟨rfl, rfl⟩
  have hall := hempty.runAll h
  rwa [List.nil_append] at hall

/-- Only the base offset of the initial builder matters to an address. -/
theorem baseOffset_runAll {es : List Emit} : ∀ {p q : VmProgram}, Emit.runAll p es = some q →
    q.baseOffset = p.baseOffset := by
  induction es with
  | nil =>
    intro p q h
    rw [← Option.some.inj h]
  | cons e es ih =>
    intro p q h
    simp only [Emit.runAll, Option.bind_eq_some_iff] at h
    obtain ⟨mid, hmid, h⟩ := h
    have hstep := VmProgram.run_code hmid
    rw [ih h]
    cases he : e.instr? with
    | none =>
      rw [he] at hstep
      exact hstep.2.2
    | some i =>
      rw [he] at hstep
      rw [hstep]
      rfl

/-- The number of operands is the opcode's for every method but `rawOp`, which leaves it to the caller. -/
def Emit.Counted (e : Emit) : Prop :=
  ∀ op operands, e = .plain op operands → operands.length = (fastOpInfo op).nops

/-- The variadic syscalls, whose operand count the decoder does not know. -/
def Emit.Variadic (e : Emit) : Prop := ∃ num args, e = .hostv num args ∨ e = .hostxv num args

theorem fastRow_variadic {e : Emit} {i : Instr} (hvar : e.Variadic) (hi : e.instr? = some i) :
    (fastRow i.op i.stack).h = .slow := by
  obtain ⟨num, args, rfl | rfl⟩ := hvar
  · obtain rfl := Option.some.inj hi
    rfl
  · obtain rfl := Option.some.inj hi
    rfl

theorem arity_of_run {p p' : VmProgram} {e : Emit} {i : Instr} (hrun : e.run p = some p') (hi : e.instr? = some i)
    (hcount : e.Counted) (hvar : ¬ e.Variadic) : i.Arity := by
  cases e with
  | label => simp [Emit.instr?] at hi
  | place l => simp [Emit.instr?] at hi
  | plain op operands =>
    obtain rfl := Option.some.inj hi
    simp only [Emit.run, VmProgram.rawOp] at hrun
    split_ifs at hrun with hop
    have hlen := hcount op operands rfl
    refine ⟨?_, hlen.symm, ?_⟩
    · cases op <;> first | rfl | simp at hop
    · cases op <;> first | rfl | simp at hop
  | jmp l => obtain rfl := Option.some.inj hi; exact ⟨rfl, rfl, rfl⟩
  | call l => obtain rfl := Option.some.inj hi; exact ⟨rfl, rfl, rfl⟩
  | jf cond l => obtain rfl := Option.some.inj hi; exact ⟨rfl, rfl, rfl⟩
  | jt cond l => obtain rfl := Option.some.inj hi; exact ⟨rfl, rfl, rfl⟩
  | jfStack l => obtain rfl := Option.some.inj hi; exact ⟨rfl, rfl, rfl⟩
  | jtStack l => obtain rfl := Option.some.inj hi; exact ⟨rfl, rfl, rfl⟩
  | stackOp op =>
    obtain rfl := Option.some.inj hi
    simp only [Emit.run, VmProgram.stackOp] at hrun
    split_ifs at hrun with hop
    simp only [VmProgram.stackForms, List.mem_cons, List.not_mem_nil, or_false] at hop
    rcases hop with rfl | rfl | rfl | rfl | rfl | rfl | rfl | rfl | rfl | rfl | rfl | rfl | rfl | rfl |
      rfl | rfl | rfl | rfl |
      rfl | rfl | rfl | rfl | rfl | rfl | rfl | rfl | rfl | rfl | rfl | rfl | rfl | rfl | rfl | rfl | rfl
    all_goals exact ⟨rfl, rfl, rfl⟩
  | hostv num args => exact absurd ⟨num, args, .inl rfl⟩ hvar
  | hostxv num args => exact absurd ⟨num, args, .inr rfl⟩ hvar

/-- A call between the calls before and after it: where its instruction lies in the built code. -/
theorem bytes_at {base : UInt64} {es : List Emit} {p : VmProgram} {code : Bytes}
    (hrun : Emit.runAll { baseOffset := base } es = some p) (hbuild : p.buildBytes = some code)
    {before after : List Emit} {e : Emit} {i : Instr} (hes : es = before ++ e :: after) (hi : e.instr? = some i) :
    ∃ start next rest, Emit.runAll { baseOffset := base } before = some start ∧ e.run start = some next ∧
      next.code.length = start.code.length + i.size ∧ code.drop start.code.length = i.bytes p.addr ++ rest ∧
      code.length ≤ cesvmMaxCode ∧ ∀ l, i.target = some l → p.address l = some (p.addr l) := by
  obtain ⟨start, hstart, hrest⟩ := runAll_append (hes ▸ hrun)
  simp only [Emit.runAll, Option.bind_eq_some_iff] at hrest
  obtain ⟨next, hnext, -⟩ := hrest
  obtain ⟨hcode, hfits, hlabels⟩ := (holds_runAll hrun).buildBytes hbuild
  have hstep := VmProgram.run_code hnext
  rw [hi] at hstep
  have hsplit : es.filterMap Emit.instr? =
      before.filterMap Emit.instr? ++ i :: after.filterMap Emit.instr? := by
    rw [hes, List.filterMap_append, List.filterMap_cons_some hi]
  -- what lies before the instruction is as long patched as it was emitted
  have hlead : ((before.filterMap Emit.instr?).flatMap (Instr.bytes p.addr)).length = start.code.length := by
    rw [(holds_runAll hstart).code, List.length_flatMap, List.length_flatMap]
    simp only [Instr.length_bytes, Instr.length_raw]
  refine ⟨start, next, (after.filterMap Emit.instr?).flatMap (Instr.bytes p.addr), hstart, hnext, ?_, ?_, hfits, ?_⟩
  · rw [hstep, VmProgram.after, List.length_append, i.length_raw]
  · rw [hcode, hsplit, List.flatMap_append, List.flatMap_cons, ← hlead, List.drop_left]
  · intro l hl
    exact hlabels i (by rw [hsplit]; simp) l hl

/-- From the start of an emitted instruction the machine reads the emitted opcode and operands and the address of
the label, and stands at the next instruction; and the decoder's entry holds the same, or is left to the reading
core because of a variadic syscall or a dereference of the program counter. -/
theorem emitted_instruction_decodes {base : UInt64} {es : List Emit} {p : VmProgram} {code : Bytes}
    (hrun : Emit.runAll { baseOffset := base } es = some p) (hbuild : p.buildBytes = some code)
    (before after : List Emit) (e : Emit) (i : Instr) (hes : es = before ++ e :: after) (hi : e.instr? = some i) :
    ∃ start next, Emit.runAll { baseOffset := base } before = some start ∧ e.run start = some next ∧
      (∀ m : Machine, m.code = code → m.pc.toNat = start.code.length →
        Opcode.ofByte (codeByte code m.pc.toNat) = some (i.op, i.stack) ∧
        readMany i.args.length (m.setPc (m.pc + 1)) = sees i.args (m.setPc (m.pc + 1)) ∧
        match i.target with
        | none => (sees i.args (m.setPc (m.pc + 1))).2.pc.toNat = next.code.length
        | some l => ∃ offset : Nat, p.labels[l]? = some (some offset) ∧
          (sees i.args (m.setPc (m.pc + 1))).2.readTarget = (UInt64.ofNat offset + base,
            (sees i.args (m.setPc (m.pc + 1))).2.setPc (UInt64.ofNat next.code.length))) ∧
      ∀ epoch, e.Counted →
        ((e.Variadic ∨ Ref 0 ∈ i.args) → decodeAt code epoch start.code.length = { epoch := epoch }) ∧
        (¬ e.Variadic → Ref 0 ∉ i.args → decodeAt code epoch start.code.length =
          { epoch := epoch, h := .op i.op i.stack, ops := i.args.map fun v => ⟨v.value, v.deref⟩
            nextPc := UInt16.ofNat next.code.length, target := i.target.elim 0 p.addr }) := by
  obtain ⟨start, next, rest, hstart, hnext, hsize, hdrop, hfits, hlabels⟩ := bytes_at hrun hbuild hes hi
  obtain ⟨hop, hargs⟩ := drop_bytes hdrop
  have hend : start.code.length + i.size ≤ code.length := by
    have hlen := length_of_drop hdrop (by rw [i.length_bytes, size_eq]; omega)
    rwa [i.length_bytes] at hlen
  refine ⟨start, next, hstart, hnext, ?_, ?_⟩
  · rintro m rfl hpc
    have hsmall : m.code.length ≤ 8192 := hfits
    have hone : (m.pc + 1).toNat = start.code.length + 1 := by
      rw [toNat_succ (by rw [size_eq] at hend; omega), hpc]
    rw [hpc]
    refine ⟨by rw [hop, ofByte_opByte], ?_⟩
    have hreads := readMany_encode (m := m.setPc (m.pc + 1)) hfits
      (by rw [pc_setPc, code_setPc, hone]; rw [size_eq] at hend; omega)
        (by rw [pc_setPc, code_setPc, hone]; exact hargs)
    obtain ⟨hmany, hcode, hpc'⟩ := hreads
    rw [pc_setPc, hone] at hpc'
    refine ⟨hmany, ?_⟩
    cases ht : i.target with
    | none =>
      dsimp only
      simp [hpc', hsize, size_eq, ht, Nat.add_assoc]
    | some l =>
      dsimp only
      have haddr := hlabels l ht
      obtain ⟨offset, hplaced, hword⟩ : ∃ offset : Nat, p.labels[l]? = some (some offset) ∧
          (p.addr l).toUInt64 = UInt64.ofNat offset + base := by
        unfold VmProgram.address at haddr
        split at haddr
        · rename_i offset hplaced
          dsimp only at haddr
          split_ifs at haddr with hwide
          refine ⟨offset, hplaced, ?_⟩
          rw [← Option.some.inj haddr, baseOffset_runAll hrun]
          rw [baseOffset_runAll hrun, UInt64.lt_iff_toNat_lt] at hwide
          apply UInt64.toNat_inj.mp
          rw [UInt16.toNat_toUInt64, UInt64.toNat_toUInt16, Nat.mod_eq_of_lt]
          exact Nat.lt_succ_of_le (Nat.not_lt.mp hwide)
        · simp at haddr
      refine ⟨offset, hplaced, ?_⟩
      rw [ht] at hargs
      have htail := decodeTail_leBytes (drop_of_drop hargs)
      rw [← hpc', ← code_setPc m (m.pc + 1), ← hcode] at htail
      rw [readTarget_eq htail, hword, hpc', hsize, size_eq, ht]
      simp [Nat.add_assoc]
  · intro epoch hcount
    refine ⟨?_, ?_⟩
    · intro hslow
      by_cases hvar : e.Variadic
      · exact decodeAt_slow hop (fastRow_variadic hvar hi) epoch
      · exact decodeAt_ref_zero hdrop (arity_of_run hnext hi hcount hvar) (hslow.resolve_left hvar) epoch
    · intro hvar hzero
      rw [decodeAt_bytes hdrop (arity_of_run hnext hi hcount hvar) ?_ epoch, hsize]
      rintro ⟨value, deref⟩ hv hderef hvalue
      dsimp only at hderef hvalue
      exact hzero (by rw [hderef, hvalue] at hv; exact hv)

/-- Two pushes and a jump back to the second of them. -/
def loopProgram : List Emit := [.label, .plain .push [Imm 300], .place 0, .plain .push [Imm 5], .jmp 0]

theorem loop_jump_decodes :
    decodeAt [17, 2, 44, 1, 17, 69, 3, 4, 0] 1 6 = { epoch := 1, h := .op .jmp false, nextPc := 9, target := 4 } := by
  obtain ⟨start, next, hstart, hnext, -, hdecode⟩ := @emitted_instruction_decodes 0 loopProgram _
    [17, 2, 44, 1, 17, 69, 3, 4, 0] rfl (by decide) (loopProgram.take 4) [] (.jmp 0) _ rfl rfl
  obtain rfl := Option.some.inj hstart
  obtain rfl := Option.some.inj hnext
  have hcount : (Emit.jmp 0).Counted := by
    rintro op operands ⟨⟩
  exact (hdecode 1 hcount).2 (by rintro ⟨num, args, h | h⟩ <;> cases h) (by simp)

end Ces.Lang
