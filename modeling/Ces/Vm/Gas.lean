import Ces.Vm.Interpreter

/-!
# What instructions cost

The gas left only falls, except by what the host grants (`HostCall.grant`), and a syscall has billed its
protocol fee before it asks the host (`HostCall.Paid`). `hostCall_spends` and `spends_stepSlow` say this of one
instruction, together with two facts about the code: it is only appended to, and it stays within its bound.
-/

namespace Ces

open Ces.Lib

/-- The gas a reply adds to the budget. -/
def HostCall.grant (c : HostCall) (r : HostReply) : Nat :=
  match c with
  | .refillGas _ => r.toGas.toNat
  | _ => 0

/-- The bill of a range of `n` cells. -/
def VmFees.rangeCost (fees : VmFees) (n days : UInt64) : UInt64 :=
  let per := Machine.prepayCost fees (Machine.createDays days.toUInt16) 0
  if per ≠ 0 ∧ uint64Max / per < n then uint64Max else per * n

/-- The days a funding adds to an asset that holds `held`. -/
def grantedDays (held : UInt32) (days : UInt16) : UInt32 := min 0x0FFF (held + days.toUInt32) - held

/-- A run that had `gas` left could pay what the call costs. -/
def HostCall.Paid (fees : VmFees) (gasMult : UInt64) (gas : Nat) : HostCall → Prop
  | .transfer _ _ | .ownerTransfer _ _ | .deposit _ | .withdraw _ | .buyAsset _ _ | .giveAsset _ _
  | .updateAssetMeta _ _ _ | .crossTransfer _ _ _ => fees.feeTx.toNat ≤ gas
  | .updateAsset _ _ => fees.feeAsset.toNat ≤ gas
  | .createAsset _ _ days | .createAssetManaged _ _ days =>
    (Machine.prepayCost fees (Machine.createDays days) 0).toNat ≤ gas
  | .createAssetRange _ n days => ∃ w d : UInt64, w ≠ 0 ∧ w.toUInt32 = n ∧ d.toUInt16 = days ∧
      (fees.rangeCost w d).toNat ≤ gas
  | .fundAsset _ days => ∃ held,
      (fees.feeTx + Machine.prepayCost fees (grantedDays held days) held).toNat ≤ gas
  | .writeAlias _ _ _ => fees.feeAlias.toNat ≤ gas
  | .schedule _ _ _ _ _ | .scheduleAlias _ _ _ _ _ => cesvmScheduleBaseCost.toNat * gasMult.toNat ≤ gas
  | _ => True

namespace Machine

/-- The gas left. -/
def gas (m : Machine) : Nat := (m.budget - m.budgetUsed).toNat

/-- What only billing, refills and code loads change. -/
def core (m : Machine) : Bytes × UInt64 × UInt64 × UInt64 := (m.code, m.gasMult, m.budget, m.budgetUsed)

/-- The core, and the count of instructions, which no instruction changes. -/
def meter (m : Machine) : (Bytes × UInt64 × UInt64 × UInt64) × UInt64 := (m.core, m.opsExecuted)

@[simp] theorem core_tick (m : Machine) : m.tick.core = m.core := rfl

/-! ### Primitives that leave the meter alone -/

section meter

variable (m : Machine)

@[simp] theorem meter_set (i : Fin 1024) (v : UInt64) : (m.set i v).meter = m.meter := rfl

@[simp] theorem meter_withIo (io : Io) : ({ m with io := io } : Machine).meter = m.meter := rfl

@[simp] theorem meter_setPc (v : UInt64) : (m.setPc v).meter = m.meter := rfl

@[simp] theorem meter_setR (v : UInt64) : (m.setR v).meter = m.meter := rfl

@[simp] theorem meter_setS (v : UInt64) : (m.setS v).meter = m.meter := rfl

@[simp] theorem meter_fault (e : VmError) : (m.fault e).meter = m.meter := rfl

@[simp] theorem meter_exhausted : m.exhausted.meter = m.meter := rfl

@[simp] theorem meter_get (index : UInt64) : (m.get index).2.meter = m.meter := by
  unfold get
  split_ifs <;> rfl

@[simp] theorem meter_load (index : UInt64) : (m.load index).2.meter = m.meter := m.meter_get index

@[simp] theorem meter_store (index v : UInt64) : (m.store index v).meter = m.meter := m.meter_get index

@[simp] theorem meter_push (v : UInt64) : (m.push v).meter = m.meter := by
  unfold push
  split_ifs <;> rfl

@[simp] theorem meter_pop : m.pop.2.meter = m.meter := by
  unfold pop
  split <;> rfl

@[simp] theorem meter_ctxPush : m.ctxPush.2.meter = m.meter := by
  unfold ctxPush
  split_ifs <;> rfl

@[simp] theorem meter_resolve (regptr : Bool) (val : UInt64) : (m.resolve regptr val).2.meter = m.meter := by
  unfold resolve
  split_ifs
  · exact m.meter_load val
  · rfl

@[simp] theorem meter_readPayload (v : Nat) (regptr : Bool) : (m.readPayload v regptr).2.meter = m.meter := by
  unfold readPayload
  split_ifs
  · rfl
  · rw [meter_resolve, meter_setPc]

@[simp] theorem meter_read : m.read.2.meter = m.meter := by
  unfold read
  dsimp only
  split_ifs
  · rfl
  · rw [meter_resolve, meter_setPc]
  · rfl
  · rw [meter_readPayload, meter_setPc]

@[simp] theorem meter_readTarget : m.readTarget.2.meter = m.meter := by
  unfold readTarget
  split_ifs
  · rfl
  · exact m.meter_readPayload 2 false

@[simp] theorem meter_writeIoBytes (ioOffset : UInt64) (data : Bytes) :
    (m.writeIoBytes ioOffset data).meter = m.meter := by
  unfold writeIoBytes
  split <;> rfl

@[simp] theorem meter_randomBytes (n : Nat) : (randomBytes n m).2.meter = m.meter := by
  induction n generalizing m with
  | zero => rfl
  | succ n ih => exact ih m.random.2

@[simp] theorem meter_putAccount (r : HostReply) : (m.putAccount r).meter = m.meter := by
  cases r <;> rfl

@[simp] theorem meter_putAsset (asset : Asset) : (m.putAsset asset).meter = m.meter := by
  simp [putAsset]

@[simp] theorem meter_putR (r : Except VmError UInt64) : (m.putR r).meter = m.meter := by
  cases r <;> rfl

@[simp] theorem meter_putStack (r : Except VmError UInt64) : (m.putStack r).meter = m.meter := by
  cases r with
  | ok v => exact m.meter_push v
  | error e => rfl

@[simp] theorem meter_abortOnError : m.abortOnError.meter = m.meter := by
  unfold abortOnError
  split_ifs <;> rfl

@[simp] theorem meter_readArgs (n : Nat) : (readArgs n m).2.meter = m.meter := by
  induction n generalizing m with
  | zero => rfl
  | succ n ih =>
    unfold readArgs
    split_ifs
    · exact m.meter_read
    · exact (ih m.read.2).trans m.meter_read

@[simp] theorem meter_putArgs (args : List UInt64) : (m.putArgs args).meter = m.meter := rfl

@[simp] theorem meter_jumpIf (taken : Bool) : (m.jumpIf taken).meter = m.meter := by
  unfold jumpIf
  split_ifs
  · rw [meter_setPc, meter_readTarget]
  · rfl

@[simp] theorem meter_callTo (target : UInt64) : (m.callTo target).meter = m.meter := by
  unfold callTo
  dsimp only
  split_ifs
  · rw [meter_setPc, meter_ctxPush]
  · rw [meter_ctxPush]

@[simp] theorem meter_ret (op1 : UInt64) : (m.ret op1).meter = m.meter := by
  unfold ret ctxRestorePop
  cases m.context <;> rfl

@[simp] theorem meter_vpush (op1 op2 : UInt64) : (m.vpush op1 op2).meter = m.meter := by
  simp [vpush]

@[simp] theorem meter_vpop (op1 op2 : UInt64) : (m.vpop op1 op2).meter = m.meter := by
  simp [vpop]

@[simp] theorem meter_addTo (op1 d : UInt64) : (m.addTo op1 d).meter = m.meter := by
  simp [addTo]

@[simp] theorem meter_popTo (op1 : UInt64) : (m.popTo op1).meter = m.meter := by
  simp [popTo]

@[simp] theorem meter_stb (op1 op2 : UInt64) : (m.stb op1 op2).meter = m.meter := by
  unfold stb
  split_ifs <;> rfl

end meter

theorem core_of_meter {m m' : Machine} (h : m'.meter = m.meter) : m'.core = m.core := congrArg Prod.fst h

/-! ### Within the gas of a machine -/

/-- `m` comes from `m₀` by running on, with `g` gas granted on the way. -/
structure Within (m₀ : Machine) (g : Nat) (m : Machine) : Prop where
  code : m₀.code <+: m.code
  fits : m₀.code.length ≤ cesvmMaxCode → m.code.length ≤ cesvmMaxCode
  gasMult : m.gasMult = m₀.gasMult
  gas : m.gas ≤ m₀.gas + g

namespace Within

variable {m₀ m m' : Machine} {g : Nat}

theorem refl (m : Machine) : Within m 0 m := ⟨List.prefix_rfl, id, rfl, Nat.le_refl _⟩

/-- The core is all that counts. -/
theorem of_core (h : Within m₀ g m) (hcore : m'.core = m.core) : Within m₀ g m' := by
  obtain ⟨hcode, hmult, hbudget, hused⟩ : m'.code = m.code ∧ m'.gasMult = m.gasMult ∧
      m'.budget = m.budget ∧ m'.budgetUsed = m.budgetUsed := by
    simpa [core] using hcore
  refine ⟨hcode ▸ h.code, hcode ▸ h.fits, hmult.trans h.gasMult, ?_⟩
  unfold Machine.gas
  rw [hbudget, hused]
  exact h.gas

end Within

theorem code_billCredits (m : Machine) (raw : UInt64) : (m.billCredits raw).2.code = m.code := by
  unfold Machine.billCredits
  split_ifs <;> rfl

theorem core_of_not_billCredits {m : Machine} {raw : UInt64} (h : (m.billCredits raw).1 = false) :
    (m.billCredits raw).2.core = m.core := by
  unfold billCredits at h ⊢
  split_ifs at h ⊢
  rfl

theorem gas_billCredits {m : Machine} {raw : UInt64} (h : (m.billCredits raw).1 = true) :
    raw.toNat ≤ m.gas ∧ (m.billCredits raw).2.gas = m.gas - raw.toNat := by
  unfold billCredits at h ⊢
  split_ifs at h ⊢ with hpoor
  have hle : raw ≤ m.budget - m.budgetUsed := UInt64.not_lt.mp hpoor
  refine ⟨UInt64.le_iff_toNat_le.mp hle, ?_⟩
  change (m.budget - (m.budgetUsed + raw)).toNat = (m.budget - m.budgetUsed).toNat - raw.toNat
  rw [← UInt64.toNat_sub_of_le _ _ hle]
  congr 1
  grind

theorem Within.billCredits {m₀ m : Machine} {g : Nat} (h : Within m₀ g m) (raw : UInt64) :
    Within m₀ g (m.billCredits raw).2 := by
  cases hok : (m.billCredits raw).1 with
  | false => exact h.of_core (core_of_not_billCredits hok)
  | true =>
    have hgas := (gas_billCredits hok).2
    have hsame : (m.billCredits raw).2.code = m.code ∧ (m.billCredits raw).2.gasMult = m.gasMult := by
      unfold Machine.billCredits
      split_ifs <;> exact ⟨rfl, rfl⟩
    refine ⟨hsame.1 ▸ h.code, hsame.1 ▸ h.fits, hsame.2.trans h.gasMult, ?_⟩
    have := h.gas
    omega

/-! ### What running on keeps -/

/-- A property of the machine, at a count of the gas granted so far, that running on keeps. -/
structure Kept (I : Nat → Machine → Prop) : Prop where
  of_meter : ∀ {g m m'}, I g m → m'.meter = m.meter → I g m'
  billed : ∀ {g m} {raw : UInt64}, I g m → (m.billCredits raw).1 = true → I g (m.billCredits raw).2
  refilled : ∀ {g m} (granted : UInt64), I g m → I (g + granted.toNat) { m with budget := m.budget + granted }
  loaded : ∀ {g m} {block : Bytes}, I g m → m.code.length + block.length ≤ cesvmMaxCode →
    I g { m with code := m.code ++ block }

namespace Kept

variable {I : Nat → Machine → Prop} {m : Machine} {g : Nat}

theorem billCredits (hI : Kept I) (h : I g m) (raw : UInt64) : I g (m.billCredits raw).2 := by
  cases hok : (m.billCredits raw).1 with
  | true => exact hI.billed h hok
  | false =>
    refine hI.of_meter h ?_
    unfold Machine.billCredits at hok ⊢
    split_ifs at hok ⊢
    exact m.meter_exhausted

theorem bill (hI : Kept I) (h : I g m) (cost : UInt64) : I g (m.bill cost).2 := by
  unfold Machine.bill
  split_ifs
  · exact hI.of_meter h m.meter_exhausted
  · exact hI.billCredits h _

theorem billMul (hI : Kept I) (h : I g m) (a b : UInt64) : I g (m.billMul a b).2 := by
  unfold Machine.billMul
  split_ifs
  · exact hI.of_meter h (m.meter_fault _)
  · exact hI.bill h _

end Kept

/-- Such a property that bounds the gas left, and knows the multiplier. -/
structure Metering (I : Nat → Machine → Prop) (mult : UInt64) (bound : Nat) : Prop extends Kept I where
  gasMult : ∀ {g m}, I g m → m.gasMult = mult
  gas : ∀ {g m}, I g m → m.gas ≤ bound + g

/-- Appending a block that fits. -/
theorem Within.append {m₀ m : Machine} {g : Nat} (h : m₀.Within g m) {block : Bytes}
    (hfits : m.code.length + block.length ≤ cesvmMaxCode) :
    m₀.Within g { m with code := m.code ++ block } :=
  ⟨h.code.trans (List.prefix_append _ _), fun _ => by simpa using hfits, h.gasMult, h.gas⟩

theorem Within.refill {m₀ m : Machine} {g : Nat} (h : m₀.Within g m) (granted : UInt64) :
    m₀.Within (g + granted.toNat) { m with budget := m.budget + granted } := by
  refine ⟨h.code, h.fits, h.gasMult, ?_⟩
  change (m.budget + granted - m.budgetUsed).toNat ≤ m₀.gas + (g + granted.toNat)
  have hsum : m.budget + granted - m.budgetUsed = m.budget - m.budgetUsed + granted := by grind
  have hgas := h.gas
  unfold Machine.gas at hgas
  rw [hsum, UInt64.toNat_add]
  have hmod := Nat.mod_le ((m.budget - m.budgetUsed).toNat + granted.toNat) (2 ^ 64)
  unfold Machine.gas
  omega

theorem metering_within (m₀ : Machine) : Metering m₀.Within m₀.gasMult m₀.gas where
  of_meter h heq := h.of_core (core_of_meter heq)
  billed h _ := h.billCredits _
  refilled granted h := h.refill granted
  loaded h hfits := h.append hfits
  gasMult h := h.gasMult
  gas h := h.gas

/-- The guard of the source: the product does not fit in 64 bits. -/
theorem product_wraps_iff (a b : UInt64) : (b ≠ 0 ∧ uint64Max / b < a) ↔ 2 ^ 64 ≤ a.toNat * b.toNat := by
  have hmax : uint64Max.toNat = 2 ^ 64 - 1 := rfl
  by_cases hb : b = 0
  · subst hb
    simp
  have hpos : 0 < b.toNat := Nat.pos_of_ne_zero fun h => hb (UInt64.toNat_inj.mp h)
  rw [and_iff_right hb, UInt64.lt_iff_toNat_lt, UInt64.toNat_div, Nat.div_lt_iff_lt_mul hpos, hmax]
  omega

/-- Gas that was billed was there, unwrapped. -/
theorem gas_bill {m : Machine} {cost : UInt64} (h : (m.bill cost).1 = true) :
    cost.toNat * m.gasMult.toNat ≤ m.gas := by
  unfold bill at h
  split_ifs at h with hwrap
  have hpaid := (gas_billCredits h).1
  rw [product_wraps_iff, not_le] at hwrap
  rwa [UInt64.toNat_mul, Nat.mod_eq_of_lt hwrap] at hpaid

/-! ### Syscalls -/

/-- From `m₀` on, with `g` granted so far, every call is paid for and every result is within the gas. -/
def Spends (fees : VmFees) (m₀ : Machine) (g : Nat) (prog : Vm Machine) : Prop :=
  prog.Tracks HostCall.grant (fun g c => c.Paid fees m₀.gasMult (m₀.gas + g)) (fun g m => m₀.Within g m) g

/-- The same for any such property: every call is paid for, and every result has it. -/
def SpendsBy (fees : VmFees) (mult : UInt64) (bound : Nat) (I : Nat → Machine → Prop) (g : Nat) (prog : Vm Machine) :
    Prop :=
  prog.Tracks HostCall.grant (fun g c => c.Paid fees mult (bound + g)) I g

section spends

variable {fees : VmFees} {mult : UInt64} {bound : Nat} {I : Nat → Machine → Prop} {m : Machine} {g : Nat}
  {k : Machine → Vm Machine}

theorem spends_done (h : I g m) : SpendsBy fees mult bound I g (.done m) := h

theorem spends_call {c : HostCall} {next : HostReply → Vm Machine}
    (hpaid : c.Paid fees mult (bound + g)) (hgrant : ∀ r, c.grant r = 0)
    (hnext : ∀ r, SpendsBy fees mult bound I g (next r)) : SpendsBy fees mult bound I g (.call c next) := by
  refine ⟨hpaid, fun r => ?_⟩
  rw [hgrant r]
  exact hnext r

theorem spends_ite {p : Prop} [Decidable p] {a b : Vm Machine} (ha : p → SpendsBy fees mult bound I g a)
    (hb : ¬ p → SpendsBy fees mult bound I g b) : SpendsBy fees mult bound I g (if p then a else b) := by
  by_cases h : p
  · rw [if_pos h]
    exact ha h
  · rw [if_neg h]
    exact hb h

theorem within_ite {p : Prop} [Decidable p] {a b : Machine} (ha : I g a) (hb : I g b) :
    I g (if p then a else b) := by
  split_ifs
  · exact ha
  · exact hb

variable (hI : Metering I mult bound)
include hI

theorem spends_finish (h : I g m) : SpendsBy fees mult bound I g m.finish :=
  spends_call trivial (fun _ => rfl) fun _ => spends_done (hI.of_meter h rfl)

theorem spends_report (h : I g m) (rc : Rc) : SpendsBy fees mult bound I g (m.report rc) :=
  spends_finish hI (hI.of_meter h rfl)

theorem spends_asking {c : HostCall} (h : I g m) (hpaid : c.Paid fees mult (bound + g))
    (hgrant : ∀ r, c.grant r = 0) : SpendsBy fees mult bound I g (m.asking c) :=
  spends_call hpaid hgrant fun r => spends_report hI h r.toRc

theorem spends_billing {cost : UInt64} (h : I g m)
    (hk : ∀ m, I g m → SpendsBy fees mult bound I g (k m)) : SpendsBy fees mult bound I g (m.billing cost k) := by
  unfold billing
  split_ifs
  · exact hk _ (hI.bill h cost)
  · exact spends_done (hI.bill h cost)

theorem spends_paying {fee : UInt64} (h : I g m)
    (hk : ∀ m, I g m → fee.toNat ≤ bound + g → SpendsBy fees mult bound I g (k m)) :
    SpendsBy fees mult bound I g (m.paying fee k) := by
  unfold paying
  split_ifs with hok
  · refine hk _ (hI.billCredits h fee) ?_
    have hpaid := (gas_billCredits hok).1
    have hgas := hI.gas h
    omega
  · exact spends_done (hI.billCredits h fee)

theorem spends_reading {ioOffset : UInt64} {len : Nat} {k : Bytes → Machine → Vm Machine}
    (h : I g m) (hk : ∀ data, SpendsBy fees mult bound I g (k data m)) :
    SpendsBy fees mult bound I g (m.reading ioOffset len k) := by
  unfold reading
  split
  · exact spends_done (hI.of_meter h (m.meter_fault _))
  · exact hk _

theorem spends_readingHash {ioOffset : UInt64} {k : Hash → Machine → Vm Machine}
    (h : I g m) (hk : ∀ key, SpendsBy fees mult bound I g (k key m)) :
    SpendsBy fees mult bound I g (m.readingHash ioOffset k) :=
  spends_reading hI h fun _ => hk _

theorem spends_readingPrefix {ioOffset : UInt64} {k : HashPrefix → Machine → Vm Machine}
    (h : I g m) (hk : ∀ id, SpendsBy fees mult bound I g (k id m)) :
    SpendsBy fees mult bound I g (m.readingPrefix ioOffset k) :=
  spends_reading hI h fun _ => hk _

theorem spends_readingContent {ioOffset : UInt64} {k : AssetData → Machine → Vm Machine}
    (h : I g m) (hk : ∀ content, SpendsBy fees mult bound I g (k content m)) :
    SpendsBy fees mult bound I g (m.readingContent ioOffset k) :=
  spends_reading hI h fun _ => hk _

theorem spends_readingInput {k : Bytes → Machine → Vm Machine} (h : I g m)
    (hk : ∀ data, SpendsBy fees mult bound I g (k data m)) : SpendsBy fees mult bound I g (m.readingInput k) := by
  unfold readingInput
  dsimp only
  split_ifs
  · exact spends_reading hI h hk
  · exact hk []

/-- Hosting a run costs at least the base. -/
theorem spends_billingSchedule {timeUs : UInt64} (h : I g m)
    (hk : ∀ m, I g m → cesvmScheduleBaseCost.toNat * mult.toNat ≤ bound + g →
      SpendsBy fees mult bound I g (k m)) :
    SpendsBy fees mult bound I g (m.billingSchedule timeUs k) := by
  unfold billingSchedule billing
  dsimp only
  have hnow : I g m.now.2 := hI.of_meter h rfl
  generalize (if m.now.1 < timeUs then timeUs - m.now.1 else 0) = duration
  -- the part for the time of hosting cannot wrap the sum
  have hbase : cesvmScheduleBaseCost.toNat ≤
      (cesvmScheduleBaseCost + cesvmSchedulePerSec * duration / usPerSec).toNat := by
    have hlt := (cesvmSchedulePerSec * duration).toNat_lt
    rw [UInt64.toNat_add, UInt64.toNat_div]
    have hpart : (cesvmSchedulePerSec * duration).toNat / usPerSec.toNat ≤ 2 ^ 64 / 1000000 :=
      Nat.div_le_div hlt.le (le_refl _) (by decide)
    have hc : cesvmScheduleBaseCost.toNat = 10000 := rfl
    rw [Nat.mod_eq_of_lt (by omega)]
    exact Nat.le_add_right _ _
  split_ifs with hok
  · refine hk _ (hI.bill hnow _) ?_
    have hgas := gas_bill hok
    rw [hI.gasMult hnow] at hgas
    have hleft := hI.gas hnow
    have hmul := Nat.mul_le_mul_right mult.toNat hbase
    omega
  · exact spends_done (hI.bill hnow _)

theorem spends_rangeAttempts {n : UInt32} {days : UInt16}
    (hpaid : ∃ w d : UInt64, w ≠ 0 ∧ w.toUInt32 = n ∧ d.toUInt16 = days ∧
      (fees.rangeCost w d).toNat ≤ bound + g)
    (attempts : Nat) (h : I g m) : SpendsBy fees mult bound I g (rangeAttempts n days attempts m) := by
  induction attempts generalizing m with
  | zero => exact spends_report hI h _
  | succ attempts ih =>
    have hdrawn : I g (randomBytes 24 m).2 := hI.of_meter h (m.meter_randomBytes 24)
    refine spends_call hpaid (fun _ => rfl) fun reply => ?_
    split_ifs
    · exact ih hdrawn
    · exact spends_finish hI (hI.of_meter hdrawn (by simp))
    · exact spends_finish hI (hI.of_meter hdrawn (by simp))

/-! One rule per syscall, in the order of `hostCall`. -/

theorem spends_sysTransfer {c : Hash → UInt64 → HostCall} (h : I g m)
    (hpaid : ∀ dest amount gas, fees.feeTx.toNat ≤ gas → (c dest amount).Paid fees mult gas)
    (hgrant : ∀ dest amount r, (c dest amount).grant r = 0) :
    SpendsBy fees mult bound I g (m.sysTransfer fees c) :=
  spends_billing hI h fun _ h => spends_readingHash hI h fun dest => spends_paying hI h fun _ h hfee =>
    spends_asking hI h (hpaid dest _ _ hfee) (hgrant dest _)

theorem spends_sysMove {c : UInt64 → HostCall} (h : I g m)
    (hpaid : ∀ amount gas, fees.feeTx.toNat ≤ gas → (c amount).Paid fees mult gas)
    (hgrant : ∀ amount r, (c amount).grant r = 0) : SpendsBy fees mult bound I g (m.sysMove fees c) :=
  spends_billing hI h fun _ h => spends_paying hI h fun _ h hfee =>
    spends_asking hI h (hpaid _ _ hfee) (hgrant _)

theorem spends_sysReadAccount (h : I g m) : SpendsBy fees mult bound I g (m.sysReadAccount fees) :=
  spends_billing hI h fun _ h => spends_readingPrefix hI h fun _ => spends_paying hI h fun _ h _ =>
    spends_call trivial (fun _ => rfl) fun _ => spends_report hI (hI.of_meter h (meter_putAccount _ _)) _

theorem spends_sysReadAsset (h : I g m) : SpendsBy fees mult bound I g (m.sysReadAsset fees) :=
  spends_billing hI h fun _ h => spends_readingHash hI h fun _ => spends_paying hI h fun m h _ =>
    spends_call trivial (fun _ => rfl) fun r => by
      cases r.toAsset with
      | none => exact spends_report hI h _
      | some asset => exact spends_report hI (hI.of_meter h (m.meter_putAsset asset)) _

theorem spends_sysCreateAssetRandom (h : I g m) : SpendsBy fees mult bound I g (m.sysCreateAssetRandom fees) :=
  spends_billing hI h fun _ h => spends_readingContent hI h fun _ => spends_paying hI h fun _ h hfee =>
    spends_call hfee (fun _ => rfl) fun _ => by
      dsimp only
      split_ifs
      · exact spends_finish hI (hI.of_meter h (by simp))
      · exact spends_finish hI (hI.of_meter h (by simp))

theorem spends_sysCreateAssetRange (h : I g m) : SpendsBy fees mult bound I g (m.sysCreateAssetRange fees) := by
  refine spends_billing hI h fun m h => ?_
  dsimp only
  split_ifs with hbad hmany
  · exact spends_report hI h _
  · have hzero : m.io 4 ≠ 0 := fun h0 => hbad (.inl h0)
    exact spends_billing hI h fun m' h => spends_paying hI h fun _ h hfee =>
      spends_rangeAttempts hI ⟨m.io 4, m'.io 5, hzero, rfl, rfl, hfee⟩ _ h
  · have hzero : m.io 4 ≠ 0 := fun h0 => hbad (.inl h0)
    exact spends_paying hI h fun _ h hfee => spends_rangeAttempts hI ⟨m.io 4, m.io 5, hzero, rfl, rfl, hfee⟩ _ h

theorem spends_sysCreateAsset {c : Hash → AssetData → UInt16 → HostCall} (h : I g m)
    (hpaid : ∀ key content days gas, (prepayCost fees (createDays days) 0).toNat ≤ gas →
      (c key content days).Paid fees mult gas)
    (hgrant : ∀ key content days r, (c key content days).grant r = 0) :
    SpendsBy fees mult bound I g (m.sysCreateAsset fees c) :=
  spends_billing hI h fun _ h => spends_readingHash hI h fun _ => spends_readingContent hI h fun _ =>
    spends_paying hI h fun _ h hfee => spends_asking hI h (hpaid _ _ _ _ hfee) (hgrant _ _ _)

theorem spends_sysUpdateAsset (h : I g m) : SpendsBy fees mult bound I g (m.sysUpdateAsset fees) :=
  spends_billing hI h fun _ h => spends_readingHash hI h fun _ => spends_readingContent hI h fun _ =>
    spends_paying hI h fun _ h hfee => spends_asking hI h hfee fun _ => rfl

theorem spends_sysSetOwner {c : Hash → HashPrefix → Machine → HostCall} (h : I g m)
    (hpaid : ∀ key newOwner m gas, fees.feeTx.toNat ≤ gas → (c key newOwner m).Paid fees mult gas)
    (hgrant : ∀ key newOwner m r, (c key newOwner m).grant r = 0) :
    SpendsBy fees mult bound I g (m.sysSetOwner fees c) :=
  spends_billing hI h fun _ h => spends_readingHash hI h fun _ => spends_readingPrefix hI h fun _ =>
    spends_paying hI h fun _ h hfee => spends_asking hI h (hpaid _ _ _ _ hfee) (hgrant _ _ _)

theorem spends_sysFundAsset (h : I g m) : SpendsBy fees mult bound I g (m.sysFundAsset fees) :=
  spends_billing hI h fun _ h => spends_readingHash hI h fun _ => spends_call trivial (fun _ => rfl) fun _ =>
    spends_paying hI h fun _ h hfee => spends_asking hI h ⟨_, hfee⟩ fun _ => rfl

theorem spends_sysBuyAsset (h : I g m) : SpendsBy fees mult bound I g (m.sysBuyAsset fees) :=
  spends_billing hI h fun _ h => spends_readingHash hI h fun _ => spends_paying hI h fun _ h hfee =>
    spends_asking hI h hfee fun _ => rfl

/-- The one syscall that adds gas, and it adds what the host grants. -/
theorem spends_sysRefill (h : I g m) : SpendsBy fees mult bound I g m.sysRefill := by
  refine spends_billing hI h fun m h => ⟨trivial, fun r => spends_report hI ?_ _⟩
  exact hI.of_meter (hI.refilled r.toGas h) (by simp)

theorem spends_sysReadAlias (h : I g m) : SpendsBy fees mult bound I g (m.sysReadAlias fees) := by
  refine spends_billing hI h fun m h => ?_
  dsimp only
  split
  · exact spends_report hI h _
  refine spends_paying hI h fun m h _ => spends_call trivial (fun _ => rfl) fun r => ?_
  cases r.toBytes with
  | none => exact spends_report hI h _
  | some data =>
    dsimp only
    split_ifs
    · exact spends_done (hI.of_meter h (by simp))
    · exact spends_report hI (hI.of_meter h (by simp)) _
    · exact spends_done h
    · exact spends_report hI (hI.of_meter h (by simp)) _

theorem spends_sysWriteAlias (h : I g m) : SpendsBy fees mult bound I g (m.sysWriteAlias fees) := by
  refine spends_billing hI h fun m h => ?_
  dsimp only
  split_ifs
  · exact spends_report hI h _
  · exact spends_reading hI h fun _ => spends_paying hI h fun _ h hfee => spends_asking hI h hfee fun _ => rfl
  · exact spends_paying hI h fun _ h hfee => spends_asking hI h hfee fun _ => rfl

theorem spends_sysLoadCode (h : I g m) : SpendsBy fees mult bound I g (m.sysLoadCode fees) := by
  refine spends_billing hI h fun m h => ?_
  split_ifs with hfull
  · exact spends_done (hI.of_meter h rfl)
  refine spends_readingHash hI h fun key => ?_
  unfold paying
  have hpaid := hI.billCredits h fees.feeQuery
  have hcode := m.code_billCredits fees.feeQuery
  split_ifs
  · refine spends_call trivial (fun _ => rfl) fun r => ?_
    cases r.toAsset with
    | none => exact spends_report hI hpaid _
    | some asset =>
      have hblock := @Kept.loaded _ hI.toKept g _ asset.content.bytes hpaid ?_
      · exact spends_report hI (hI.of_meter hblock (meter_setR _ _)) _
      rw [hcode, asset.content.size_eq]
      exact Nat.not_lt.mp hfull
  · exact spends_done hpaid

theorem spends_sysLoadCodeAlias (h : I g m) : SpendsBy fees mult bound I g (m.sysLoadCodeAlias fees) := by
  unfold sysLoadCodeAlias
  generalize aliasInlineCodeBytes = len
  refine spends_billing hI h fun m h => spends_ite (fun _ => spends_done (hI.of_meter h (m.meter_fault _)))
    fun hfull => ?_
  unfold paying
  have hpaid := hI.billCredits h fees.feeQuery
  have hcode := m.code_billCredits fees.feeQuery
  dsimp only
  split
  · refine spends_call trivial (fun _ => rfl) fun r => ?_
    cases r.toBytes with
    | none => exact spends_report hI hpaid _
    | some data =>
      have hblock := @Kept.loaded _ hI.toKept g _ (ByteArr.ofList len data).bytes hpaid ?_
      · exact spends_report hI (hI.of_meter hblock (meter_setR _ _)) _
      rw [hcode, ByteArr.size_eq]
      exact Nat.not_lt.mp hfull
  · exact spends_done hpaid

theorem spends_sysSchedule (h : I g m) :
    SpendsBy fees mult bound I g m.sysSchedule :=
  spends_billing hI h fun _ h => spends_readingHash hI h fun _ => spends_readingInput hI h fun _ =>
    spends_billingSchedule hI h fun _ h hcost => spends_asking hI h hcost fun _ => rfl

theorem spends_sysScheduleAlias (h : I g m) :
    SpendsBy fees mult bound I g m.sysScheduleAlias :=
  spends_billing hI h fun _ h => spends_readingInput hI h fun _ =>
    spends_billingSchedule hI h fun _ h hcost => spends_asking hI h hcost fun _ => rfl

theorem spends_sysHash {lib : VmLib} (h : I g m) : SpendsBy fees mult bound I g (m.sysHash lib) := by
  refine spends_billing hI h fun m h => ?_
  dsimp only
  split
  · split_ifs
    · exact spends_report hI (hI.of_meter (hI.billMul h _ _) (meter_withIo _ _)) _
    · exact spends_done (hI.billMul h _ _)
  · exact spends_done (hI.of_meter h rfl)

theorem spends_sysVerifySig {lib : VmLib} (h : I g m) : SpendsBy fees mult bound I g (m.sysVerifySig lib) :=
  spends_billing hI h fun _ h => spends_billing hI h fun _ h => spends_reading hI h fun _ =>
    spends_reading hI h fun _ => spends_readingHash hI h fun _ =>
    spends_call trivial (fun _ => rfl) fun _ => spends_report hI (hI.of_meter h (meter_setR _ _)) _

theorem spends_sysCrossTransfer (h : I g m) : SpendsBy fees mult bound I g (m.sysCrossTransfer fees) :=
  spends_billing hI h fun _ h => spends_readingHash hI h fun _ => spends_reading hI h fun _ =>
    spends_paying hI h fun _ h hfee => spends_asking hI h hfee fun _ => rfl

theorem spends_sysSendClient {lib : VmLib} (h : I g m) :
    SpendsBy fees mult bound I g (m.sysSendClient lib fees) :=
  spends_billing hI h fun _ h => spends_readingPrefix hI h fun _ => spends_reading hI h fun _ =>
    spends_paying hI h fun _ h _ => spends_call trivial (fun _ => rfl) fun _ =>
    spends_report hI (hI.of_meter h (meter_setR _ _)) _

theorem spends_sysRpc (h : I g m) : SpendsBy fees mult bound I g m.sysRpc := by
  refine spends_billing hI h fun m h => ?_
  dsimp only
  split_ifs
  · exact spends_report hI h _
  · exact spends_reading hI h fun _ => spends_readingHash hI h fun _ => spends_readingHash hI h fun _ =>
      spends_asking hI h trivial fun _ => rfl
  · exact spends_readingHash hI h fun _ => spends_readingHash hI h fun _ => spends_asking hI h trivial fun _ => rfl

theorem spends_sysL2Call (h : I g m) : SpendsBy fees mult bound I g m.sysL2Call := by
  refine spends_billing hI h fun m h => spends_reading hI h fun _ => ?_
  dsimp only
  split_ifs
  · exact spends_report hI h _
  · exact spends_reading hI h fun _ => spends_readingHash hI h fun _ => spends_asking hI h trivial fun _ => rfl
  · exact spends_readingHash hI h fun _ => spends_asking hI h trivial fun _ => rfl

/-- A syscall pays before it asks, and leaves the machine within its gas. -/
theorem hostCall_spends (lib : VmLib) (h : I g m) :
    SpendsBy fees mult bound I g (hostCall lib fees m) := by
  unfold hostCall
  cases Syscall.ofWord (m.io cellSyscall) with
  | none => exact spends_finish hI (hI.of_meter h rfl)
  | some call =>
    cases call with
    | nop => exact spends_billing hI h fun _ h => spends_report hI h _
    | readAccount => exact spends_sysReadAccount hI h
    | transfer => exact spends_sysTransfer hI h (fun _ _ _ hfee => hfee) fun _ _ _ => rfl
    | ownerTransfer => exact spends_sysTransfer hI h (fun _ _ _ hfee => hfee) fun _ _ _ => rfl
    | deposit => exact spends_sysMove hI h (fun _ _ hfee => hfee) fun _ _ => rfl
    | withdraw => exact spends_sysMove hI h (fun _ _ hfee => hfee) fun _ _ => rfl
    | readAsset => exact spends_sysReadAsset hI h
    | createAssetRandom => exact spends_sysCreateAssetRandom hI h
    | createAssetRange => exact spends_sysCreateAssetRange hI h
    | updateAsset => exact spends_sysUpdateAsset hI h
    | updateAssetMeta => exact spends_sysSetOwner hI h (fun _ _ _ _ hfee => hfee) fun _ _ _ _ => rfl
    | refill => exact spends_sysRefill hI h
    | readAlias => exact spends_sysReadAlias hI h
    | writeAlias => exact spends_sysWriteAlias hI h
    | loadCodeAlias => exact spends_sysLoadCodeAlias hI h
    | scheduleAlias => exact spends_sysScheduleAlias hI h
    | fundAsset => exact spends_sysFundAsset hI h
    | buyAsset => exact spends_sysBuyAsset hI h
    | giveAsset => exact spends_sysSetOwner hI h (fun _ _ _ _ hfee => hfee) fun _ _ _ _ => rfl
    | sendUdp => exact spends_billing hI h fun _ h => spends_report hI h _
    | hash => exact spends_sysHash hI h
    | verifySig => exact spends_sysVerifySig hI h
    | crossTransfer => exact spends_sysCrossTransfer hI h
    | createAsset => exact spends_sysCreateAsset hI h (fun _ _ _ _ hfee => hfee) fun _ _ _ _ => rfl
    | loadCode => exact spends_sysLoadCode hI h
    | sendClient => exact spends_sysSendClient hI h
    | schedule => exact spends_sysSchedule hI h
    | createAssetManaged => exact spends_sysCreateAsset hI h (fun _ _ _ _ hfee => hfee) fun _ _ _ _ => rfl
    | rpc => exact spends_sysRpc hI h
    | l2call => exact spends_sysL2Call hI h

/-! ### Instructions -/

theorem within_read1 {next : UInt64 → Machine → Machine} (h : I g m)
    (hnext : ∀ v m, I g m → I g (next v m)) : I g (m.read1 next) :=
  hnext _ _ (hI.of_meter h m.meter_read)

theorem within_read2 {next : UInt64 → UInt64 → Machine → Machine} (h : I g m)
    (hnext : ∀ v w m, I g m → I g (next v w m)) : I g (m.read2 next) :=
  within_read1 hI h fun v _ h => within_read1 hI h fun w m h => hnext v w m h

theorem within_read3 {next : UInt64 → UInt64 → UInt64 → Machine → Machine} (h : I g m)
    (hnext : ∀ v w n m, I g m → I g (next v w n m)) : I g (m.read3 next) :=
  within_read1 hI h fun v _ h => within_read2 hI h fun w n m h => hnext v w n m h

theorem within_pop1 {next : UInt64 → Machine → Machine} (h : I g m)
    (hnext : ∀ v m, I g m → I g (next v m)) : I g (m.pop1 next) :=
  hnext _ _ (hI.of_meter h m.meter_pop)

theorem within_pop2 {next : UInt64 → UInt64 → Machine → Machine} (h : I g m)
    (hnext : ∀ v w m, I g m → I g (next v w m)) : I g (m.pop2 next) :=
  within_pop1 hI h fun w _ h => within_pop1 hI h fun v m h => hnext v w m h

theorem within_bulk {fits : Bool} {cnt : UInt64} {act : Machine → Machine} (h : I g m)
    (hact : ∀ m, (act m).meter = m.meter) : I g (m.bulk fits cnt act) := by
  unfold bulk
  split_ifs
  · exact hI.of_meter h (m.meter_fault _)
  · exact within_ite (hI.of_meter (hI.billMul h _ _) (hact _)) (hI.billMul h _ _)

theorem spends_hostV (lib : VmLib) (asserting : Bool) (h : I g m) :
    SpendsBy fees mult bound I g (hostV lib fees asserting m) := by
  have hnum : I g m.read.2 := hI.of_meter h m.meter_read
  have hcount : I g m.read.2.read.2 := hI.of_meter hnum (meter_read _)
  refine spends_ite (fun _ => spends_done hnum) fun _ => spends_ite (fun _ => spends_done hcount) fun _ =>
    spends_ite (fun _ => spends_done (hI.of_meter hcount (meter_fault _ _))) fun _ =>
    spends_billing hI hcount fun m' h => ?_
  have hargs := hI.of_meter h (m'.meter_readArgs m.read.2.read.1.toNat)
  refine spends_ite (fun _ => spends_done hargs) fun _ => ?_
  have hready := hI.of_meter (hI.of_meter hargs (meter_set _ cellSyscall m.read.1))
    (meter_putArgs _ (readArgs m.read.2.read.1.toNat m').1)
  exact (hostCall_spends hI lib hready).map fun _ _ hm => within_ite (hI.of_meter hm (meter_abortOnError _)) hm

theorem spends_slowOp (lib : VmLib) (op : Opcode) (stack : Bool)
    (h : I g m) : SpendsBy fees mult bound I g (slowOp lib fees op stack m) := by
  unfold slowOp
  cases op.binary? with
  | some f =>
    exact spends_done (within_ite (within_pop2 hI h fun _ _ m h => hI.of_meter h (m.meter_putStack _))
      (within_read2 hI h fun _ _ m h => hI.of_meter h (m.meter_putR _)))
  | none =>
    cases op.unary? with
    | some f =>
      exact spends_done (within_ite (within_pop1 hI h fun _ m h => hI.of_meter h (m.meter_push _))
        (within_read1 hI h fun _ m h => hI.of_meter h (m.meter_setR _)))
    | none =>
      dsimp only
      split
      case h_1 => exact spends_done h
      case h_2 => exact spends_done (hI.of_meter h (m.meter_setPc _))
      case h_3 => exact spends_done (within_read2 hI h fun _ _ m h => hI.of_meter h (m.meter_store _ _))
      case h_4 => exact spends_done (hI.of_meter h (by simp))
      case h_5 => exact spends_done (within_read1 hI h fun _ m h => hI.of_meter h (m.meter_addTo _ _))
      case h_6 => exact spends_done (within_read1 hI h fun _ m h => hI.of_meter h (m.meter_addTo _ _))
      case h_7 => exact spends_done (within_read1 hI h fun _ m h => hI.of_meter h (m.meter_push _))
      case h_8 => exact spends_done (within_read1 hI h fun _ m h => hI.of_meter h (m.meter_popTo _))
      case h_9 => exact hostCall_spends hI lib h
      case h_10 => exact (hostCall_spends hI lib h).map fun _ m hm => hI.of_meter hm m.meter_abortOnError
      case h_11 => exact spends_done (hI.of_meter h (m.meter_fault _))
      case h_12 => exact spends_done (within_read2 hI h fun _ _ m h => hI.of_meter h (m.meter_vpush _ _))
      case h_13 => exact spends_done (within_read2 hI h fun _ _ m h => hI.of_meter h (m.meter_vpop _ _))
      case h_14 => exact spends_done (hI.of_meter h (by simp))
      case h_15 => exact spends_done (within_pop1 hI h fun _ m h => hI.of_meter h (m.meter_callTo _))
      case h_16 => exact spends_done (within_read1 hI h fun _ m h => hI.of_meter h (m.meter_setPc _))
      case h_17 => exact spends_done (within_read1 hI h fun _ m h => hI.of_meter h (m.meter_callTo _))
      case h_18 => exact spends_hostV hI lib false h
      case h_19 => exact spends_hostV hI lib true h
      case h_20 => exact spends_done (within_read1 hI h fun _ m h => hI.of_meter h (m.meter_ret _))
      case h_21 => exact spends_done (within_read1 hI h fun _ m h => hI.of_meter h (m.meter_jumpIf _))
      case h_22 => exact spends_done (within_pop1 hI h fun _ m h => hI.of_meter h (m.meter_jumpIf _))
      case h_23 => exact spends_done (within_read1 hI h fun _ m h => hI.of_meter h (m.meter_jumpIf _))
      case h_24 => exact spends_done (within_pop1 hI h fun _ m h => hI.of_meter h (m.meter_jumpIf _))
      case h_25 => exact spends_done (within_read1 hI h fun _ m h => within_ite (hI.of_meter h (m.meter_fault _)) h)
      case h_26 => exact spends_done (within_pop1 hI h fun _ m h => within_ite (hI.of_meter h (m.meter_fault _)) h)
      case h_27 => exact spends_done (within_pop1 hI h fun _ m h => hI.of_meter h (by simp))
      case h_28 => exact spends_done (hI.of_meter h rfl)
      case h_29 => exact spends_done (hI.of_meter h (meter_push _ _))
      case h_30 => exact spends_done (hI.of_meter h rfl)
      case h_31 => exact spends_done (hI.of_meter h (meter_push _ _))
      case h_32 => exact spends_done (within_read3 hI h fun _ _ _ m h => within_bulk hI h fun _ => rfl)
      case h_33 => exact spends_done (within_read3 hI h fun _ _ _ m h => within_bulk hI h fun _ => rfl)
      case h_34 => exact spends_done (within_read3 hI h fun _ _ _ m h => within_bulk hI h fun _ => rfl)
      case h_35 => exact spends_done (within_read1 hI h fun _ m h => hI.of_meter h (m.meter_putR _))
      case h_36 => exact spends_done (within_pop1 hI h fun _ m h => hI.of_meter h (m.meter_putStack _))
      case h_37 => exact spends_done (within_read2 hI h fun _ _ m h => hI.of_meter h (m.meter_stb _ _))
      case h_38 => exact spends_done (within_pop2 hI h fun _ _ m h => hI.of_meter h (m.meter_stb _ _))
      case h_39 => exact spends_done (hI.of_meter h (m.meter_fault _))

/-- One instruction of the reference core. -/
theorem spends_stepSlow (lib : VmLib) (h : I g m) :
    SpendsBy fees mult bound I g (stepSlow lib fees m) := by
  unfold stepSlow
  cases Opcode.ofByte (codeByte m.code m.pc.toNat) with
  | none => exact spends_done (hI.of_meter h rfl)
  | some code => exact spends_slowOp hI lib code.1 code.2 (hI.of_meter h (m.meter_setPc _))

end spends

/-! ### Runs -/

section runs

variable {fees : VmFees} {m₀ m : Machine} {g : Nat}

/-- The price of one instruction. -/
def opPrice (mult : UInt64) : Nat := cesvmCostPerOp.toNat * mult.toNat

theorem opPrice_pos {mult : UInt64} (h : mult ≠ 0) : 0 < opPrice mult :=
  Nat.mul_pos (by decide) (Nat.pos_of_ne_zero fun h0 => h (UInt64.toNat_inj.mp h0))

theorem opCost_toNat (h : m.opCostOvf = false) : m.opCost.toNat = opPrice m.gasMult := by
  have hsmall : cesvmCostPerOp ≤ uint64Max / m.gasMult := by
    unfold opCostOvf at h
    exact UInt64.not_lt.mp (of_decide_eq_false h)
  rw [UInt64.le_iff_toNat_le, UInt64.toNat_div] at hsmall
  have hmul := Nat.mul_le_of_le_div _ _ _ hsmall
  have hmax : uint64Max.toNat < 2 ^ 64 := uint64Max.toNat_lt
  unfold opCost opPrice
  rw [if_neg (by simp [h]), UInt64.toNat_mul]
  exact Nat.mod_eq_of_lt (by omega)

theorem gas_billOp (hmult : m.gasMult ≠ 0) (h : m.billOp.1 = true) : m.billOp.2.gas < m.gas := by
  unfold billOp at h ⊢
  split_ifs at h ⊢ with hpoor
  have hfits : m.opCostOvf = false := Bool.eq_false_of_not_eq_true fun h => hpoor (.inl h)
  have hle : m.opCost ≤ m.budget - m.budgetUsed := UInt64.not_lt.mp fun h => hpoor (.inr h)
  have hpos : 0 < m.opCost.toNat := by
    rw [opCost_toNat hfits]
    exact opPrice_pos hmult
  change (m.budget - (m.budgetUsed + m.opCost)).toNat < (m.budget - m.budgetUsed).toNat
  have hle' := UInt64.le_iff_toNat_le.mp hle
  have hsub : m.budget - (m.budgetUsed + m.opCost) = m.budget - m.budgetUsed - m.opCost := by grind
  rw [hsub, UInt64.toNat_sub_of_le _ _ hle]
  omega

theorem Within.billOp {m₀ m : Machine} {g : Nat} (hmult : m₀.gasMult ≠ 0) (h : m₀.Within g m) :
    m₀.Within g m.billOp.2 := by
  have hsame : m.billOp.2.code = m.code ∧ m.billOp.2.gasMult = m.gasMult := by
    unfold Machine.billOp
    split_ifs <;> exact ⟨rfl, rfl⟩
  refine ⟨hsame.1 ▸ h.code, hsame.1 ▸ h.fits, hsame.2.trans h.gasMult, ?_⟩
  have hgas := h.gas
  cases hok : m.billOp.1 with
  | true =>
    have := gas_billOp (h.gasMult ▸ hmult) hok
    omega
  | false =>
    have hcore : m.billOp.2.core = m.core := by
      unfold Machine.billOp at hok ⊢
      split_ifs at hok ⊢
      exact core_of_meter m.meter_exhausted
    exact (h.of_core hcore).gas

/-- A turn that goes on has burned gas. -/
theorem legacyTurn_descends (fees : VmFees) (lib : VmLib) (hmult : m.gasMult ≠ 0) :
    (legacyTurn lib fees m).Tracks HostCall.grant (fun _ _ => True)
      (fun g t => ∀ m', t = .next m' → m'.gasMult ≠ 0 ∧ m'.gas < m.gas + g) 0 := by
  unfold legacyTurn
  split_ifs with hhalt
  · exact fun _ h => nomatch h
  dsimp only
  split_ifs with hok
  · have hburned : m.tick.billOp.2.gas < m.gas := gas_billOp (m := m.tick) hmult hok
    have hkept : m.tick.billOp.2.gasMult = m.gasMult :=
      (((Within.refl m).of_core m.core_tick).billOp hmult).gasMult
    have hstep : Spends fees m.tick.billOp.2 0 (stepSlow lib fees m.tick.billOp.2) :=
      spends_stepSlow (metering_within _) lib (Within.refl _)
    refine Program.Tracks.map (hstep.mono (fun _ _ _ => trivial) fun _ _ hm => hm) fun g m' hm m'' heq => ?_
    cases heq
    refine ⟨by rw [hm.gasMult, hkept]; exact hmult, ?_⟩
    have hgas := hm.gas
    omega
  · exact fun _ h => nomatch h

/-- The gas of a machine, and what its host grants, is fuel enough. -/
theorem runLegacy_isSome {σ : Type} (lib : VmLib) (hmult : m.gasMult ≠ 0)
    (handle : HostCall → σ → HostReply × σ) (fuel : Nat) (st : σ)
    (hfuel : m.gas + (runLegacy lib fees fuel m).spent HostCall.grant handle st < fuel) :
    ((runLegacy lib fees fuel m).run handle st).1.isSome := by
  have hturn : ∀ m : Machine, m.gasMult ≠ 0 → (legacyTurn lib fees m).Tracks HostCall.grant (fun _ _ => True)
      (fun g t => ∀ m', t = .next m' → m'.gasMult ≠ 0 ∧ m'.gas < m.gas + g) 0 :=
    fun m h => legacyTurn_descends fees lib h
  exact Program.loop_isSome hturn handle fuel hmult st hfuel

end runs

end Machine

end Ces
