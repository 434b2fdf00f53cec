import Ces.Vm.Lockstep
import Ces.Vm.Refill

/-!
# The meter of a run

`budget_`, `budgetUsed_` and `opsExecuted` are 64-bit counters; refills may carry the first past its range, and
only the order of the subtractions guards the second. `Metered` says what the three stand for: counts over the
naturals, the gas used within what the run was given, and every instruction but the last one paid for. One turn
keeps it (`tracks_legacyTurn_metered`), so it holds after any number of turns.

A run stops when its host grants finitely much, which the server's does; a host without a ceiling can keep a
program alive for ever (`refillLoop_never_stops`).
-/

namespace Ces

open Ces.Lib

namespace Machine

/-- The counters of a machine that was given `budget` and then `g`, up to `slack` gas not yet paid. -/
structure Metered (budget : Nat) (mult : UInt64) (slack g : Nat) (m : Machine) : Prop where
  gasMult : m.gasMult = mult
  granted : m.budget = UInt64.ofNat (budget + g)
  counts : ∃ used ops : Nat, m.budgetUsed = UInt64.ofNat used ∧ m.opsExecuted = UInt64.ofNat ops ∧
    used ≤ budget + g ∧ ops * opPrice mult ≤ used + slack

section metered

variable {budget slack g : Nat} {mult : UInt64} {m : Machine}

theorem Metered.mono (h : Metered budget mult 0 g m) (slack : Nat) : Metered budget mult slack g m := by
  obtain ⟨used, ops, hused, hops, hle, hpaid⟩ := h.counts
  exact ⟨h.gasMult, h.granted, used, ops, hused, hops, hle, hpaid.trans (Nat.le_add_right _ _)⟩

theorem Metered.used_le (h : Metered budget mult slack g m) : m.budgetUsed.toNat ≤ budget + g := by
  obtain ⟨used, ops, hused, -, hle, -⟩ := h.counts
  rw [hused, UInt64.toNat_ofNat']
  exact (Nat.mod_le _ _).trans hle

theorem Metered.ops_le (hmult : mult ≠ 0) (h : Metered budget mult (opPrice mult) g m) :
    m.opsExecuted.toNat ≤ (budget + g) / opPrice mult + 1 := by
  obtain ⟨used, ops, -, hops, hle, hpaid⟩ := h.counts
  have hprice := opPrice_pos hmult
  have hcount : ops ≤ (budget + g + opPrice mult) / opPrice mult :=
    (Nat.le_div_iff_mul_le hprice).mpr (hpaid.trans (Nat.add_le_add_right hle _))
  rw [Nat.add_div_right _ hprice] at hcount
  rw [hops, UInt64.toNat_ofNat']
  exact (Nat.mod_le _ _).trans hcount

/-- The gas left is what the counters say, up to a wrap-around. -/
theorem gas_of_counts {used : Nat} (hbudget : m.budget = UInt64.ofNat (budget + g))
    (hused : m.budgetUsed = UInt64.ofNat used) (hle : used ≤ budget + g) : m.gas ≤ budget + g - used := by
  unfold gas
  rw [hbudget, hused, ← UInt64.ofNat_sub hle, UInt64.toNat_ofNat']
  exact Nat.mod_le _ _

/-- Gas billed within the gas left. -/
theorem Metered.used_add {cost : UInt64} (h : Metered budget mult slack g m) (hcost : cost.toNat ≤ m.gas) :
    Metered budget mult (slack - cost.toNat) g { m with budgetUsed := m.budgetUsed + cost } := by
  obtain ⟨used, ops, hused, hops, hle, hpaid⟩ := h.counts
  have hgas := gas_of_counts h.granted hused hle
  refine ⟨h.gasMult, h.granted, used + cost.toNat, ops, ?_, hops, by omega, by omega⟩
  change m.budgetUsed + cost = UInt64.ofNat (used + cost.toNat)
  rw [UInt64.ofNat_add, hused, UInt64.ofNat_toNat]

theorem Metered.of_meter {m' : Machine} (h : Metered budget mult slack g m) (heq : m'.meter = m.meter) :
    Metered budget mult slack g m' := by
  obtain ⟨⟨hcode, hmult, hbudget, hused⟩, hops⟩ : (m'.code = m.code ∧ m'.gasMult = m.gasMult ∧
      m'.budget = m.budget ∧ m'.budgetUsed = m.budgetUsed) ∧ m'.opsExecuted = m.opsExecuted := by
    simpa [meter, core] using heq
  refine ⟨hmult.trans h.gasMult, hbudget.trans h.granted, ?_⟩
  rw [hused, hops]
  exact h.counts

/-- A property of the meter that every instruction keeps. -/
theorem metering_metered (budget : Nat) (mult : UInt64) : Metering (Metered budget mult 0) mult budget where
  of_meter := Metered.of_meter
  billed {g m raw} h hok := by
    have hpaid := h.used_add (gas_billCredits hok).1
    rw [Nat.zero_sub] at hpaid
    refine hpaid.of_meter ?_
    unfold billCredits at hok ⊢
    split_ifs at hok ⊢
    rfl
  refilled {g m} granted h := by
    obtain ⟨used, ops, hused, hops, hle, hpaid⟩ := h.counts
    refine ⟨h.gasMult, ?_, used, ops, hused, hops, by omega, hpaid⟩
    change m.budget + granted = _
    rw [h.granted, ← Nat.add_assoc, UInt64.ofNat_add (budget + g), UInt64.ofNat_toNat]
  loaded h _ := ⟨h.gasMult, h.granted, h.counts⟩
  gasMult h := h.gasMult
  gas h := by
    obtain ⟨used, ops, hused, -, hle, -⟩ := h.counts
    exact (gas_of_counts h.granted hused hle).trans (Nat.sub_le _ _)

/-! ### Turns -/

/-- A counted instruction is paid for next. -/
theorem Metered.tick (h : Metered budget mult 0 g m) : Metered budget mult (opPrice mult) g m.tick := by
  obtain ⟨used, ops, hused, hops, hle, hpaid⟩ := h.counts
  refine ⟨h.gasMult, h.granted, used, ops + 1, hused, ?_, hle, ?_⟩
  · change m.opsExecuted + 1 = _
    rw [hops, UInt64.ofNat_add]
    rfl
  · rw [Nat.add_mul, Nat.one_mul]
    omega

theorem Metered.billOp (h : Metered budget mult (opPrice mult) g m) (hok : m.billOp.1 = true) :
    Metered budget mult 0 g m.billOp.2 := by
  unfold Machine.billOp at hok ⊢
  split_ifs at hok ⊢ with hpoor
  have hovf : m.opCostOvf = false := Bool.eq_false_of_not_eq_true fun h => hpoor (.inl h)
  have hle : m.opCost.toNat ≤ m.gas :=
    UInt64.le_iff_toNat_le.mp (UInt64.not_lt.mp fun h => hpoor (.inr h))
  have hcost : m.opCost.toNat = opPrice mult := by rw [opCost_toNat hovf, h.gasMult]
  have hpaid := h.used_add hle
  rw [hcost, Nat.sub_self] at hpaid
  exact hpaid.of_meter rfl

theorem Metered.not_billOp (h : Metered budget mult slack g m) (hok : m.billOp.1 = false) :
    Metered budget mult slack g m.billOp.2 := by
  refine h.of_meter ?_
  unfold Machine.billOp at hok ⊢
  split_ifs at hok ⊢
  exact m.meter_exhausted

/-- At the head of a turn all is paid for; a run that stopped may owe its last instruction. -/
def MeteredTurn (budget : Nat) (mult : UInt64) (g : Nat) : Turn Machine → Prop
  | .next m => Metered budget mult 0 g m
  | .stop m => Metered budget mult (opPrice mult) g m

theorem MeteredTurn.state {t : Turn Machine} (h : MeteredTurn budget mult g t) :
    Metered budget mult (opPrice mult) g t.state := by
  cases t with
  | next m => exact Metered.mono h _
  | stop m => exact h

theorem tracks_legacyTurn_metered (lib : VmLib) (fees : VmFees) (h : Metered budget mult 0 g m) :
    (legacyTurn lib fees m).Tracks HostCall.grant (fun g c => c.Paid fees mult (budget + g))
      (MeteredTurn budget mult) g := by
  unfold legacyTurn
  split_ifs with hhalt
  · exact h.mono _
  dsimp only
  cases hok : m.tick.billOp.1 with
  | true =>
    rw [if_pos rfl]
    exact Program.Tracks.map (spends_stepSlow (metering_metered budget mult) lib (h.tick.billOp hok))
      fun _ _ hm => hm
  | false =>
    rw [if_neg Bool.false_ne_true]
    exact (h.tick.not_billOp hok).of_meter (meter_setPc _ _)

end metered

/-- The multiplier a run starts with. -/
def runMult (req : VmRunRequest) : UInt64 := if req.gasMult = 0 then 1 else req.gasMult

theorem runMult_ne_zero (req : VmRunRequest) : runMult req ≠ 0 := by
  unfold runMult
  split_ifs with hzero
  · decide
  · exact hzero

theorem metered_boot (req : VmRunRequest) (rng clock : Stream' UInt64) :
    Metered req.budget.toNat (runMult req) 0 0 (boot req rng clock) := by
  have hmeter := meter_boot req rng clock
  refine ⟨congrArg (fun c => c.1.2.1) hmeter, ?_, 0, 0, congrArg (fun c => c.1.2.2.2) hmeter,
    congrArg (fun c => c.2) hmeter, Nat.zero_le _, by omega⟩
  have hbudget : (boot req rng clock).budget = req.budget := congrArg (fun c => c.1.2.2.1) hmeter
  rw [hbudget, Nat.add_zero, UInt64.ofNat_toNat]

/-! ### The mirror -/

/-- The cell shows the gas left. -/
def Mirrors (m : Machine) : Prop := m.io ioBudgetRemaining = m.budget - m.budgetUsed

theorem mirrors_set (m : Machine) : (m.set ioBudgetRemaining (m.budget - m.budgetUsed)).Mirrors := by
  unfold Mirrors set
  exact Function.update_self ioBudgetRemaining _ m.io

theorem mirrors_billCredits (m : Machine) {raw : UInt64} (hok : (m.billCredits raw).1 = true) :
    (m.billCredits raw).2.Mirrors := by
  unfold billCredits at hok ⊢
  split_ifs at hok ⊢
  exact mirrors_set _

theorem mirrors_bill (m : Machine) {cost : UInt64} (hok : (m.bill cost).1 = true) : (m.bill cost).2.Mirrors := by
  unfold bill at hok ⊢
  split_ifs at hok ⊢
  exact m.mirrors_billCredits hok

theorem mirrors_billMul (m : Machine) {a b : UInt64} (hok : (m.billMul a b).1 = true) :
    (m.billMul a b).2.Mirrors := by
  unfold billMul at hok ⊢
  split_ifs at hok ⊢
  exact m.mirrors_bill hok

theorem mirrors_billOp (m : Machine) (hok : m.billOp.1 = true) : m.billOp.2.Mirrors := by
  unfold billOp at hok ⊢
  split_ifs at hok ⊢
  exact mirrors_set _

end Machine

/-! ### Whole runs -/

/-- The turns of the fast core are those of the reference core. -/
theorem turns_fast_eq (lib : VmLib) (fees : VmFees) {dtab : List Decoded} {epoch : UInt32}
    (htable : VmTable dtab epoch) (req : VmRunRequest) (rng clock : Stream' UInt64)
    (hfits : req.code.length ≤ cesvmMaxCode) (n : Nat) :
    (Program.turns (FastCore.turn lib fees) n (FastCore.start dtab epoch (Machine.boot req rng clock))).map
        (Turn.map FastCore.machine) =
      Program.turns (Machine.legacyTurn lib fees) n (Machine.boot req rng clock) := by
  have hcode : (Machine.boot req rng clock).code = req.code :=
    congrArg (fun c => c.1.1) (Machine.meter_boot req rng clock)
  have hagree : FastCore.Agree (FastCore.start dtab epoch (Machine.boot req rng clock)) (Machine.boot req rng clock) :=
    FastCore.agree_start htable.stamped (hcode ▸ hfits) (Machine.gasMult_boot req rng clock)
  refine (Program.Sim.turns (fun _ _ => FastCore.sim_turn lib fees) n hagree).map_eq fun t t' hrel => ?_
  cases hrel with
  | next hsame => exact congrArg Turn.next hsame.same
  | stop hsame => exact congrArg Turn.stop hsame.same

/-- After any number of turns. -/
theorem metered_turns (lib : VmLib) (fees : VmFees) (req : VmRunRequest) (rng clock : Stream' UInt64) {σ : Type}
    (handle : HostCall → σ → HostReply × σ) (st : σ) (n : Nat) :
    let p := Program.turns (Machine.legacyTurn lib fees) n (Machine.boot req rng clock)
    Machine.Metered req.budget.toNat (Machine.runMult req) (Machine.opPrice (Machine.runMult req))
      (p.spent HostCall.grant handle st) (p.run handle st).1.state := by
  intro p
  have htracks := Program.Tracks.turns (q := Machine.MeteredTurn req.budget.toNat (Machine.runMult req))
    (fun _ _ h => Machine.tracks_legacyTurn_metered lib fees h) n
    (Machine.metered_boot req rng clock)
  have hrun := htracks.run handle st
  rw [Nat.zero_add] at hrun
  exact hrun.state

/-- Whatever the code, the budget and the multiplier, on both cores. A run against a host that grants at most
`total` stops, within as many turns as it has gas; the server's host grants at most its ceiling. Against any host, after
any number of turns, the gas used is at most the budget and what was granted so far, and the instructions are at most
that over the price of one, and one more. A bill that goes through leaves the mirror right. -/
theorem execute_metered (lib : VmLib) (fees : VmFees) {dtab : List Decoded} {epoch : UInt32}
    (htable : VmTable dtab epoch) (req : VmRunRequest) (rng clock : Stream' UInt64) :
    (∀ {σ : Type} (handle : HostCall → σ → HostReply × σ) (st : σ) (total : Nat),
      (∀ fuel, (Machine.runLegacy lib fees fuel (Machine.boot req rng clock)).spent HostCall.grant handle st ≤ total) →
      ∀ fuel, req.budget.toNat + total < fuel →
        ((executeWith (Machine.runLegacy lib fees fuel) id req rng clock).run handle st).1.isSome ∧
        ((executeWith (runFast lib fees dtab epoch fuel) FastCore.machine req rng clock).run handle st).1.isSome) ∧
    (∀ (s : CesServer) (fuel : Nat), (Machine.runLegacy lib fees fuel (Machine.boot req rng clock)).spent HostCall.grant
      VmHost.handle (VmHost.ofRequest s req) ≤ req.refillCeiling.toNat) ∧
    (∀ {σ : Type} (handle : HostCall → σ → HostReply × σ) (st : σ) (n : Nat),
      let p := Program.turns (Machine.legacyTurn lib fees) n (Machine.boot req rng clock)
      let bound := req.budget.toNat + p.spent HostCall.grant handle st
      let m := (p.run handle st).1.state
      m.budgetUsed.toNat ≤ bound ∧
        m.opsExecuted.toNat ≤ bound / Machine.opPrice (Machine.runMult req) + 1) ∧
    (req.code.length ≤ cesvmMaxCode → ∀ n,
      (Program.turns (FastCore.turn lib fees) n (FastCore.start dtab epoch (Machine.boot req rng clock))).map
          (Turn.map FastCore.machine) =
        Program.turns (Machine.legacyTurn lib fees) n (Machine.boot req rng clock)) ∧
    ∀ m : Machine, (∀ raw, (m.billCredits raw).1 = true → (m.billCredits raw).2.Mirrors) ∧
      (∀ cost, (m.bill cost).1 = true → (m.bill cost).2.Mirrors) ∧
      (∀ a b, (m.billMul a b).1 = true → (m.billMul a b).2.Mirrors) ∧ (m.billOp.1 = true → m.billOp.2.Mirrors) := by
  have hgas : (Machine.boot req rng clock).gas ≤ req.budget.toNat :=
    (Machine.metering_metered _ _).gas (Machine.metered_boot req rng clock)
  refine ⟨fun handle st total hgrants fuel hfuel => ?_, fun s fuel => VmHost.spent_grant_le _ s req,
    fun handle st n => ?_, fun hfits n => turns_fast_eq lib fees htable req rng clock hfits n,
    fun m => ⟨fun _ => m.mirrors_billCredits, fun _ => m.mirrors_bill, fun _ _ => m.mirrors_billMul,
      m.mirrors_billOp⟩⟩
  · have hstops := execute_runLegacy_isSome lib fees req rng clock fuel handle st (by
      have := hgrants fuel
      omega)
    refine ⟨hstops, ?_⟩
    rw [execute_runFast_eq lib fees htable]
    exact hstops
  · have hmetered := metered_turns lib fees req rng clock handle st n
    exact ⟨hmetered.used_le, hmetered.ops_le (Machine.runMult_ne_zero req)⟩

/-- On the server's host the interpreter ends by itself: a run never meets the end of its fuel. -/
theorem interpret_stops (lib : VmLib) (rng clock : Stream' UInt64) (s : CesServer) (req : VmRunRequest) :
    ∃ r : CesVMResult, (runProgram (interpret lib rng clock) s req).1 = r.outcome := by
  obtain ⟨hstops, hgrants, -⟩ := execute_metered lib s.vmFees .new req rng clock
  have hsome := (hstops VmHost.handle (.ofRequest s req) _ (hgrants s)
    (req.budget.toNat + req.refillCeiling.toNat + 1) (Nat.lt_succ_self _)).2
  obtain ⟨r, hr⟩ := Option.isSome_iff_exists.mp hsome
  refine ⟨r, ?_⟩
  unfold runProgram interpret
  rw [Program.map, Program.run_bind]
  change ((Option.map CesVMResult.outcome _).getD _) = _
  rw [hr]
  rfl

def bareServer : CesServer := .load .stock (ByteArr.zero 32) ∅ ∅ ∅

/-- A run of two instructions on a new `CesVM`, on the server's own host. -/
theorem execute_metered_new :
    ((executeWith (runFast plainLib ⟨0, 0, 0, 0, 0, 0, 0⟩ [] 0 301) FastCore.machine plainRequest (Stream'.const 0)
      (Stream'.const 0)).run VmHost.handle (VmHost.ofRequest bareServer plainRequest)).1.isSome := by
  obtain ⟨hstops, hgrants, -⟩ := execute_metered plainLib ⟨0, 0, 0, 0, 0, 0, 0⟩ .new plainRequest (Stream'.const 0)
    (Stream'.const 0)
  exact (hstops VmHost.handle (VmHost.ofRequest bareServer plainRequest) 0 (hgrants _) 301 (by decide)).2

/-! ### A host without a ceiling -/

/-- `HOSTV refill 0; JMP 0`. -/
def refillLoop : Bytes := [46, 0x57, 0x40, 3, 0, 0]

/-- Grants what one round of the loop costs. -/
def generousHost (_ : HostCall) (st : Unit) : HostReply × Unit := (.gas 450, st)

/-- In the loop, before the instruction at `pc`, with `gas` left. -/
structure Looping (pc gas : UInt64) (m : Machine) : Prop where
  term : m.term = .ok
  code : m.code = refillLoop
  gasMult : m.gasMult = 1
  pc : m.pc = pc
  gas : m.budget - m.budgetUsed = gas

namespace Looping

variable {pc gas : UInt64} {m : Machine}

theorem setPc (h : Looping pc gas m) (p : UInt64) : Looping p gas (m.setPc p) :=
  ⟨h.term, h.code, h.gasMult, m.pc_setPc p, h.gas⟩

theorem set (h : Looping pc gas m) {i : Fin 1024} (hi : cellPc ≠ i) (v : UInt64) : Looping pc gas (m.set i v) :=
  ⟨h.term, h.code, h.gasMult, (by simp [Machine.pc, Machine.set, hi] : _ = m.pc).trans h.pc, h.gas⟩

theorem billCredits (h : Looping pc gas m) {cost : UInt64} (hle : cost ≤ gas) :
    (m.billCredits cost).1 = true ∧ Looping pc (gas - cost) (m.billCredits cost).2 := by
  unfold Machine.billCredits
  rw [if_neg (by rw [h.gas]; exact UInt64.not_lt.mpr hle)]
  have hpaid : Looping pc (gas - cost) { m with budgetUsed := m.budgetUsed + cost } := by
    refine ⟨h.term, h.code, h.gasMult, h.pc, ?_⟩
    change m.budget - (m.budgetUsed + cost) = gas - cost
    rw [← h.gas]
    grind
  exact ⟨rfl, hpaid.set (by decide) _⟩

theorem bill (h : Looping pc gas m) (cost : UInt64) (hle : cost ≤ gas) :
    (m.bill cost).1 = true ∧ Looping pc (gas - cost) (m.bill cost).2 := by
  unfold Machine.bill
  have hfits : ¬ uint64Max / 1 < cost := by
    rw [UInt64.lt_iff_toNat_lt]
    have := cost.toNat_lt
    change ¬ 2 ^ 64 - 1 < cost.toNat
    omega
  rw [h.gasMult, if_neg (fun hovf => hfits hovf.2), UInt64.mul_one]
  exact h.billCredits hle

theorem billOp (h : Looping pc gas m) (hle : 100 ≤ gas) :
    m.tick.billOp.1 = true ∧ Looping pc (gas - 100) m.tick.billOp.2 := by
  have hcost : m.opCostOvf = false ∧ m.opCost = 100 := by
    unfold Machine.opCost Machine.opCostOvf
    rw [h.gasMult]
    decide
  have htick : Looping pc gas m.tick := ⟨h.term, h.code, h.gasMult, h.pc, h.gas⟩
  have hsame : m.tick.billOp = m.tick.billCredits 100 := by
    unfold Machine.billOp Machine.billCredits
    have hovf : m.tick.opCostOvf = false := hcost.1
    have hprice : m.tick.opCost = 100 := hcost.2
    rw [hovf, hprice]
    simp only [Bool.false_eq_true, false_or]
  rw [hsame]
  exact htick.billCredits hle

theorem refill (h : Looping pc gas m) (granted : UInt64) :
    Looping pc (gas + granted) { m with budget := m.budget + granted } := by
  refine ⟨h.term, h.code, h.gasMult, h.pc, ?_⟩
  change m.budget + granted - m.budgetUsed = gas + granted
  rw [← h.gas]
  grind

theorem putArgs (h : Looping pc gas m) (args : List UInt64) : Looping pc gas (m.putArgs args) :=
  ⟨h.term, h.code, h.gasMult, h.pc, h.gas⟩

/-- A short operand. -/
theorem read (h : Looping pc gas m) (hpc : pc.toNat < refillLoop.length)
    (hshort : Machine.isShortVal (Machine.codeByte refillLoop pc.toNat) = true)
    (hplain : Machine.isRegPtr (Machine.codeByte refillLoop pc.toNat) = false) :
    m.read = ((Machine.shortVal (Machine.codeByte refillLoop pc.toNat)).toUInt64, m.setPc (pc + 1)) := by
  unfold Machine.read
  rw [h.code, h.pc, if_neg (Nat.not_le.mpr hpc)]
  dsimp only
  rw [if_pos hshort, hplain]
  rfl

end Looping

/-- The refill gives back the round. -/
theorem looping_sysRefill {m : Machine} (h : Looping 3 800 m) :
    ∃ m', m.sysRefill.run generousHost () = (m', ()) ∧ Looping 3 1100 m' := by
  obtain ⟨hok, hpaid⟩ := h.bill cesvmCostPerSyscall (by decide)
  have hgranted := hpaid.refill 450
  unfold Machine.sysRefill Machine.billing
  rw [if_pos hok]
  exact ⟨_, rfl, (((hgranted.set (by decide) _).set (by decide) _).set (by decide) _).set (by decide) _⟩

theorem looping_hostCall (fees : VmFees) {m : Machine} (h : Looping 3 800 m) :
    ∃ m', (Machine.hostCall plainLib fees ((m.set cellSyscall 23).putArgs [])).run generousHost () = (m', ()) ∧
      Looping 3 1100 m' := by
  have hcall : Syscall.ofWord (((m.set cellSyscall 23).putArgs []).io cellSyscall) = some .refill := by
    simp [Machine.putArgs, Machine.set, Syscall.ofWord, Syscall.all]
  unfold Machine.hostCall
  rw [hcall]
  exact looping_sysRefill ((h.set (by decide) 23).putArgs [])

theorem looping_hostV (fees : VmFees) {m : Machine} (h : Looping 1 900 m) :
    ∃ m', (Machine.hostV plainLib fees false m).run generousHost () = (m', ()) ∧ Looping 3 1100 m' := by
  have h2 := h.setPc 2
  have h3 := h2.setPc 3
  have hnum : m.read = (23, m.setPc 2) := h.read (by decide) (by decide) (by decide)
  have hcount : (m.setPc 2).read = (0, (m.setPc 2).setPc 3) := h2.read (by decide) (by decide) (by decide)
  obtain ⟨hok, hpaid⟩ := h3.bill (cesvmCostPerOp * (0 + 1)) (by decide)
  obtain ⟨m', hrun, hm'⟩ := looping_hostCall fees hpaid
  refine ⟨m', ?_, hm'⟩
  unfold Machine.hostV
  dsimp only
  rw [hnum]
  dsimp only
  rw [if_neg (not_not_intro h2.term), hcount]
  dsimp only
  rw [if_neg (not_not_intro h3.term), if_neg (by decide)]
  unfold Machine.billing
  rw [if_pos hok]
  change Program.run _ (if ((((m.setPc 2).setPc 3).bill (cesvmCostPerOp * (0 + 1))).2.term ≠ .ok) then _ else _) _ = _
  rw [if_neg (not_not_intro hpaid.term)]
  unfold Program.map
  rw [Program.run_bind]
  exact hrun

/-- The turn of `HOSTV`. -/
theorem looping_turn_hostV (fees : VmFees) {m : Machine} (h : Looping 0 1000 m) :
    ∃ m', (Machine.legacyTurn plainLib fees m).run generousHost () = (.next m', ()) ∧ Looping 3 1100 m' := by
  obtain ⟨hok, hpaid⟩ := h.billOp (by decide)
  obtain ⟨m', hrun, hm'⟩ := looping_hostV fees (hpaid.setPc 1)
  refine ⟨m', ?_, hm'⟩
  have hop : Opcode.ofByte (Machine.codeByte refillLoop (0 : UInt64).toNat) = some (.hostv, false) := by decide
  unfold Machine.legacyTurn
  rw [if_neg (by rw [h.term, h.code, h.pc]; decide)]
  dsimp only
  rw [if_pos hok]
  unfold Program.map Machine.stepSlow
  rw [Program.run_bind, hpaid.code, hpaid.pc, hop]
  exact congrArg (fun r : Machine × Unit => (Turn.next r.1, r.2)) hrun

/-- The turn of `JMP`. -/
theorem looping_turn_jmp (fees : VmFees) {m : Machine} (h : Looping 3 1100 m) :
    ∃ m', (Machine.legacyTurn plainLib fees m).run generousHost () = (.next m', ()) ∧ Looping 0 1000 m' := by
  obtain ⟨hok, hpaid⟩ := h.billOp (by decide)
  have hnext := hpaid.setPc 4
  have htarget : (m.tick.billOp.2.setPc 4).readTarget = (0, (m.tick.billOp.2.setPc 4).setPc 6) := by
    unfold Machine.readTarget Machine.readPayload
    rw [hnext.code, hnext.pc]
    rfl
  refine ⟨((m.tick.billOp.2.setPc 4).setPc 6).setPc 0, ?_, (hnext.setPc 6).setPc 0⟩
  have hop : Opcode.ofByte (Machine.codeByte refillLoop (3 : UInt64).toNat) = some (.jmp, false) := by decide
  unfold Machine.legacyTurn
  rw [if_neg (by rw [h.term, h.code, h.pc]; decide)]
  dsimp only
  rw [if_pos hok]
  unfold Program.map Machine.stepSlow
  rw [Program.run_bind, hpaid.code, hpaid.pc, hop]
  change (Turn.next ((m.tick.billOp.2.setPc 4).readTarget.2.setPc (m.tick.billOp.2.setPc 4).readTarget.1), ()) = _
  rw [htarget]

/-- Two turns lead back to the start. -/
theorem looping_run (fees : VmFees) (fuel : Nat) {m : Machine} (h : Looping 0 1000 m) :
    ((Machine.runLegacy plainLib fees fuel m).run generousHost ()).1 = none := by
  induction fuel using Nat.twoStepInduction generalizing m with
  | zero => rfl
  | one =>
    obtain ⟨m₁, hturn, -⟩ := looping_turn_hostV fees h
    unfold Machine.runLegacy Program.loop
    rw [Program.run_bind, hturn]
    rfl
  | more fuel ih _ =>
    obtain ⟨m₁, hturn, h₁⟩ := looping_turn_hostV fees h
    obtain ⟨m₂, hturn₂, h₂⟩ := looping_turn_jmp fees h₁
    unfold Machine.runLegacy Program.loop
    rw [Program.run_bind, hturn]
    dsimp only
    unfold Program.loop
    rw [Program.run_bind, hturn₂]
    exact ih h₂

def refillLoopRequest : VmRunRequest := { plainRequest with code := refillLoop, budget := 1000 }

/-- No number of turns is enough. -/
theorem refillLoop_never_stops :
    ¬ ∃ fuel, ((executeWith (Machine.runLegacy plainLib ⟨0, 0, 0, 0, 0, 0, 0⟩ fuel) id refillLoopRequest
      (Stream'.const 0) (Stream'.const 0)).run generousHost ()).1.isSome := by
  rintro ⟨fuel, hstops⟩
  have hstart : Looping 0 1000 (Machine.boot refillLoopRequest (Stream'.const 0) (Stream'.const 0)) :=
    ⟨rfl, rfl, rfl, by decide, by decide⟩
  unfold executeWith at hstops
  rw [if_neg (by decide)] at hstops
  unfold Program.map at hstops
  rw [Program.run_bind, looping_run _ fuel hstart] at hstops
  exact nomatch hstops

end Ces
