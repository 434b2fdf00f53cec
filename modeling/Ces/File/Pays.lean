import Ces.File.Rules

/-!
# Who pays for a write

WRITE, APPEND and RESIZE check that the file's program account holds their cost, let the billing policy take the
query fee, and then debit the program account without looking at the result. Where the fee comes out of the same
account, as in a call a program makes on its own file, the fee may take what was just checked; the debit fails and
the write is free.
-/

namespace Ces

open Ces.Lib Ces.Lib.Posix

namespace FileServer

variable {f f' : FileServer} {env : CallEnv} {bill : L2Billing}

/-! ### The transaction -/

theorem transact_ok {admits : Accounts → Bool} {cost : Int} {commit : Accounts → Accounts}
    (h : f.transact bill admits cost commit = (⟨.ok, false⟩, f')) :
    admits f.accounts = true ∧ ∃ g, f.charge bill cost = (⟨.ok, false⟩, g) ∧ f'.accounts = commit g.accounts := by
  unfold transact at h
  cases hadmits : admits f.accounts with
  | false =>
    rw [hadmits] at h
    cases h
  | true =>
    refine ⟨rfl, ?_⟩
    rw [hadmits, Bool.not_true, if_neg Bool.false_ne_true] at h
    rcases hcharge : f.charge bill cost with ⟨⟨rc, duplicate⟩, g⟩
    rw [hcharge] at h
    cases rc with
    | ok =>
      cases duplicate with
      | false =>
        obtain rfl := (Prod.mk.inj h).2
        exact ⟨g, rfl, rfl⟩
      | true => cases h
    | _ => cases h

/-- A charge that goes through takes the cost from the payer, if there is one. A source reads the cost as signed. -/
theorem charge_ok {cost : Int} (h : f.charge bill cost = (⟨.ok, false⟩, f')) :
    bill.payer = none ∧ f'.accounts = f.accounts ∨
      ∃ payer, bill.payer = some payer ∧
        ((asUInt64 cost).toNat < 2 ^ 63 → f.accounts.Took f'.accounts payer (asUInt64 cost).toNat) := by
  cases bill with
  | free =>
    obtain rfl := (Prod.mk.inj h).2
    exact .inl ⟨rfl, rfl⟩
  | source prog metered =>
    cases metered with
    | false =>
      obtain rfl := (Prod.mk.inj h).2
      exact .inl ⟨rfl, rfl⟩
    | true =>
      refine .inr ⟨_, rfl, fun hsmall => ?_⟩
      unfold charge at h
      dsimp only at h
      rw [Bool.not_true, if_neg Bool.false_ne_true] at h
      rcases f.accounts.debitAccount_cases prog hsmall with heq | ⟨a', heq, htook⟩
      · rw [heq] at h
        cases h
      · rw [heq] at h
        obtain rfl := (Prod.mk.inj h).2
        exact htook
  | signer key reqNonce sigHash errFee =>
    refine .inr ⟨_, rfl, fun _ => ?_⟩
    unfold charge at h
    dsimp only at h
    by_cases hreplay : reqNonce = Accounts.nonceless ∧ sigHash ∈ f.dedup
    · rw [if_pos hreplay] at h
      cases h
    rw [if_neg hreplay] at h
    rcases hspend : f.accounts.signerSpend key (asUInt64 cost) reqNonce errFee with ⟨rc, a'⟩
    rw [hspend] at h
    cases rc with
    | ok =>
      obtain rfl := (Prod.mk.inj h).2
      exact Accounts.took_signerSpend hspend
    | _ => cases h

/-- The fee left the payer's account, if there is a payer, and the cost the account `prog`; nothing else moved. -/
def Billed (bill : L2Billing) (prog : HashPrefix) (fee total : UInt64) (a a' : Accounts) : Prop :=
  ∀ x, a'.balance x = a.balance x - (if bill.payer = some x then (fee.toNat : Int) else 0) -
    (if x = prog then (total.toNat : Int) else 0)

/-- Both amounts are read as they are, and an account that pays both holds both. -/
def Covered (bill : L2Billing) (prog : HashPrefix) (fee total : UInt64) (a : Accounts) : Prop :=
  total.toNat < 2 ^ 63 ∧ (bill.payer = none ∨ fee.toNat < 2 ^ 63) ∧
    (total = 0 ∨ bill.payer ≠ some prog ∨ (fee.toNat + total.toNat : Int) ≤ a.balance prog)

section billed

variable {prog : Hash} {fee total : UInt64}

/-- The query fee is taken from the payer, where it is read as it is. -/
theorem balance_charge (h : f.charge bill (asInt64 fee) = (⟨.ok, false⟩, f'))
    (hfee : bill.payer = none ∨ fee.toNat < 2 ^ 63) (x : HashPrefix) :
    f'.accounts.balance x = f.accounts.balance x - if bill.payer = some x then (fee.toNat : Int) else 0 := by
  rcases charge_ok h with ⟨hnone, hsame⟩ | ⟨payer, hpayer, htook⟩
  · rw [hsame, hnone, if_neg (fun h => nomatch h), sub_zero]
  · rw [hpayer] at hfee
    rw [asUInt64_asInt64] at htook
    have hbalance := (htook (hfee.resolve_left fun h => nomatch h)).balance x
    rw [hbalance, hpayer]
    by_cases hx : x = payer
    · rw [if_pos hx, if_pos (congrArg some hx.symm)]
    · rw [if_neg hx, if_neg (fun h => hx (Option.some.inj h).symm), sub_zero]

theorem billed_of_covered (h : f.transact bill (affords prog total) (asInt64 fee) (payFromFile prog total) =
      (⟨.ok, false⟩, f')) (hcovered : Covered bill (getHashPrefix prog) fee total f.accounts) :
    Billed bill (getHashPrefix prog) fee total f.accounts f'.accounts := by
  obtain ⟨hadmits, g, hcharge, hafter⟩ := transact_ok h
  obtain ⟨htotal, hfee, hheld⟩ := hcovered
  have hcharged := balance_charge hcharge hfee
  intro x
  rw [hafter]
  unfold payFromFile
  by_cases hzero : total = 0
  · rw [hzero, if_neg (by decide), hcharged x]
    simp
  · have hpos : 0 < total := UInt64.pos_iff_ne_zero.mpr hzero
    rw [if_pos hpos]
    have hadmitted : (total.toNat : Int) ≤ f.accounts.balance (getHashPrefix prog) := by
      have hholds : holds prog total f.accounts = true := by
        unfold affords at hadmits
        rwa [decide_eq_false hzero, Bool.false_or] at hadmits
      unfold holds at hholds
      rw [asInt64_of_lt htotal] at hholds
      exact of_decide_eq_true hholds
    have hleft : (total.toNat : Int) ≤ g.accounts.balance (getHashPrefix prog) := by
      rw [hcharged]
      rcases hheld with h0 | hother | hboth
      · exact absurd h0 hzero
      · rw [if_neg hother]
        omega
      · split_ifs <;> omega
    have hpaid := (Accounts.took_debitAccount htotal hleft).balance x
    rw [hpaid, hcharged x]
    split_ifs <;> omega

theorem covered_of_billed (h : f.transact bill (affords prog total) (asInt64 fee) (payFromFile prog total) =
      (⟨.ok, false⟩, f')) (hbilled : Billed bill (getHashPrefix prog) fee total f.accounts f'.accounts) :
    Covered bill (getHashPrefix prog) fee total f.accounts := by
  -- no balance can fall by more than its span
  have hspan : ∀ x, f.accounts.balance x - f'.accounts.balance x < 2 ^ 48 := by
    intro x
    have hupper := f.accounts.balance_upper x
    have hlower := f'.accounts.balance_lower x
    unfold balanceMax at hupper
    unfold balanceMin at hlower
    omega
  have htotal : total.toNat < 2 ^ 63 := by
    have hfall := hspan (getHashPrefix prog)
    rw [hbilled, if_pos rfl] at hfall
    split_ifs at hfall <;> omega
  have hfee : bill.payer = none ∨ fee.toNat < 2 ^ 63 := by
    cases hpayer : bill.payer with
    | none => exact .inl rfl
    | some payer =>
      have hfall := hspan payer
      rw [hbilled, hpayer, if_pos rfl] at hfall
      refine .inr ?_
      split_ifs at hfall <;> omega
  refine ⟨htotal, hfee, ?_⟩
  by_contra hshort
  rw [not_or, not_or, not_not, not_le] at hshort
  obtain ⟨hzero, hshared, hpoor⟩ := hshort
  obtain ⟨-, g, hcharge, hafter⟩ := transact_ok h
  have hcharged := balance_charge hcharge hfee (getHashPrefix prog)
  rw [if_pos hshared] at hcharged
  have hexact := hbilled (getHashPrefix prog)
  rw [if_pos hshared, if_pos rfl, hafter] at hexact
  have hpos : 0 < total := UInt64.pos_iff_ne_zero.mpr hzero
  unfold payFromFile at hexact
  rw [if_pos hpos] at hexact
  have hnat : 0 < total.toNat := UInt64.lt_iff_toNat_lt.mp hpos
  -- the account is short of the cost now, so the debit changes nothing
  have hrefused : (g.accounts.debitAccount prog total).2 = g.accounts := by
    unfold Accounts.debitAccount
    cases hfind : g.accounts.find (getHashPrefix prog) with
    | none => rfl
    | some acc =>
      have hbal := Accounts.balance_of_find hfind
      dsimp only
      rw [asInt64_of_lt htotal, if_pos (by omega)]
  rw [hrefused] at hexact
  omega

theorem billed_iff_covered (h : f.transact bill (affords prog total) (asInt64 fee) (payFromFile prog total) =
      (⟨.ok, false⟩, f')) :
    Billed bill (getHashPrefix prog) fee total f.accounts f'.accounts ↔
      Covered bill (getHashPrefix prog) fee total f.accounts :=
  ⟨covered_of_billed h, billed_of_covered h⟩

end billed

/-! ### The verbs -/

theorem transact_fresh (hfresh : f.isReplay bill = false) (admits : Accounts → Bool) (cost : Int)
    (commit : Accounts → Accounts) : (f.transact bill admits cost commit).1.duplicate = false := by
  have hdup := f.charge_duplicate bill cost
  rw [hfresh] at hdup
  unfold transact
  split_ifs
  · rfl
  · generalize f.charge bill cost = res at hdup
    obtain ⟨⟨rc, duplicate⟩, g⟩ := res
    obtain rfl : duplicate = false := hdup
    cases rc <;> rfl

/-- A file that pays its rent keeps its disk, and its sidecar but for the stamp. -/
theorem chargeRentOrDelete_some {cPath sPath : List Bytes} {sc sc' : Sidecar}
    (h : f.chargeRentOrDelete env cPath sPath sc = (some sc', f')) :
    f' = f.setAccounts f'.accounts ∧ sc' = { sc with lastRentUs := sc'.lastRentUs } := by
  unfold chargeRentOrDelete at h
  split_ifs at h with hzone hkv
  · cases h
    exact ⟨rfl, rfl⟩
  · cases h
    exact ⟨rfl, rfl⟩
  · dsimp only at h
    by_cases hzero : computeOwedRent sc.size f.files.feeFileRent sc.lastRentUs env.now = 0
    · rw [if_pos hzero] at h
      cases h
      exact ⟨rfl, rfl⟩
    · rw [if_neg hzero] at h
      unfold debitProgramAccountSync at h
      generalize f.accounts.debitProgramAccount sc.programPubkey _ = debited at h
      obtain ⟨⟨_ | _, bal⟩, a⟩ := debited <;> cases h
      exact ⟨rfl, rfl⟩

/-- The ledger when the rent of a file is rolled forward. -/
def rolled (f : FileServer) (env : CallEnv) (name : Bytes) (sc : Sidecar) : Accounts :=
  (f.chargeRentOrDelete env (f.contentPath name) (f.sidecarPath name) sc).2.accounts

/-- The transaction of a verb on the account `prog`, from the ledger `a`, went through and is the last word on the
ledger. -/
def Transacts (f : FileServer) (bill : L2Billing) (a : Accounts) (prog : Hash) (total : UInt64) (f' : FileServer) :
    Prop :=
  ∃ g g' : FileServer, g.accounts = a ∧
    g.transact bill (affords prog total) (asInt64 f.server.cfg.feeQuery) (payFromFile prog total) =
      (⟨.ok, false⟩, g') ∧ f'.accounts = g'.accounts

theorem Transacts.billed_iff {a : Accounts} {prog : Hash} {total : UInt64} (h : f.Transacts bill a prog total f') :
    Billed bill (getHashPrefix prog) f.server.cfg.feeQuery total a f'.accounts ↔
      Covered bill (getHashPrefix prog) f.server.cfg.feeQuery total a := by
  obtain ⟨g, g', rfl, htransact, hlast⟩ := h
  rw [hlast]
  exact billed_iff_covered htransact

/-- The rent of the first window for new bytes; the server's zone pays none. -/
def growthCost (f : FileServer) (name : Bytes) (bytes : UInt64) : UInt64 :=
  if isServerZone name then 0 else f.upfrontRent bytes

/-- The bytes a new size adds. -/
def grownBytes (sc : Sidecar) (newSize : UInt64) : UInt64 :=
  let bytesDelta := int64 (asInt64 newSize - asInt64 sc.size)
  if 0 < bytesDelta then asUInt64 bytesDelta else 0

/-- A verb that reports success has made its transaction, on the ledger with the rent rolled forward. -/
def Settles (f : FileServer) (env : CallEnv) (bill : L2Billing) (name : Bytes) (total : Sidecar → UInt64) (status : Rc)
    (f' : FileServer) : Prop :=
  status = .ok → ∃ sc, f.disk.readSidecar f.files (f.sidecarPath name) = some sc ∧
    f.Transacts bill (f.rolled env name sc) sc.programPubkey (total sc) f'

section verbs

variable {name : Bytes} {total : Sidecar → UInt64}

theorem Settles.refused {rc : Rc} (hrc : rc ≠ .ok) (f' : FileServer) : f.Settles env bill name total rc f' :=
  fun hok => absurd hok hrc

/-- The rent roll that opens a verb, of a file that pays. -/
theorem rolled_eq {sc sc' : Sidecar} {g : FileServer}
    (h : f.chargeRentOrDelete env (f.contentPath name) (f.sidecarPath name) sc = (some sc', g)) :
    g = f.setAccounts (f.rolled env name sc) ∧ sc' = { sc with lastRentUs := sc'.lastRentUs } := by
  obtain ⟨hg, hsc⟩ := chargeRentOrDelete_some h
  refine ⟨?_, hsc⟩
  unfold rolled
  rw [h]
  exact hg

theorem settles_writeCore {offset : UInt64} {body : Bytes} {caller : Hash} (hfresh : f.isReplay bill = false) :
    f.Settles env bill name (fun _ => f.writeCostOf name (UInt64.ofNat body.length))
      (f.writeCore env name offset body caller bill).1.status (f.writeCore env name offset body caller bill).2 := by
  unfold writeCore
  by_cases hbody : body.length = 0 ∨ maxWriteLen < body.length
  · rw [if_pos hbody]
    exact fun hok => nomatch hok
  rw [if_neg hbody]
  dsimp only
  refine withSidecar_rule (P := fun r : BalanceOutcome × FileServer => f.Settles env bill name _ r.1.status r.2)
    (fun rc hrc => .refused hrc _) fun sc hread => ?_
  rcases hroll : f.chargeRentOrDelete env (f.contentPath name) (f.sidecarPath name) sc with ⟨_ | sc', g⟩
  · exact fun hok => nomatch hok
  obtain ⟨rfl, hsc⟩ := rolled_eq hroll
  dsimp only
  refine onlyOwner_rule (P := fun r : BalanceOutcome × FileServer => f.Settles env bill name _ r.1.status r.2)
    (fun hok => nomatch hok) ?_
  by_cases hrange : sc'.size < offset ∨ sc'.size < offset + UInt64.ofNat body.length
  · rw [if_pos hrange]
    exact fun hok => nomatch hok
  rw [if_neg hrange]
  have hfresh' : ((f.setAccounts (f.rolled env name sc)).saveSidecar env name sc').isReplay bill = false :=
    (isReplay_congr rfl).trans hfresh
  have hprog : sc'.programPubkey = sc.programPubkey := by rw [hsc]
  generalize htransact : FileServer.transact _ bill _ _ _ = res
  have hdup := congrArg (fun r => r.1.duplicate) htransact
  rw [transact_fresh hfresh'] at hdup
  obtain ⟨⟨rc, duplicate⟩, g'⟩ := res
  cases rc with
  | ok =>
    obtain rfl : false = duplicate := hdup
    dsimp only
    generalize FileServer.rewriteOnDisk _ _ _ _ _ _ _ = rewritten
    obtain ⟨_ | stored, d⟩ := rewritten
    · exact fun hok => nomatch hok
    · rw [hprog] at htransact
      exact fun _ => ⟨sc, hread, (f.setAccounts (f.rolled env name sc)).saveSidecar env name sc', g', rfl,
        htransact, rfl⟩
  | _ => exact fun hok => nomatch hok

/-- The end of APPEND and RESIZE. -/
theorem settles_growCore {g : FileServer} {sc sc' : Sidecar} {step : DiskStep} {change : Bytes → Bytes}
    {newSize : UInt64}
    {bytesDelta : Int} (hfresh : g.isReplay bill = false) (hfee : g.server.cfg.feeQuery = f.server.cfg.feeQuery)
    (hread : f.disk.readSidecar f.files (f.sidecarPath name) = some sc) (haccounts : g.accounts = f.rolled env name sc)
    (hprog : sc'.programPubkey = sc.programPubkey) {cost : UInt64} (hcost : cost = total sc) :
    f.Settles env bill name total (g.growCore env name sc' cost bill step change newSize bytesDelta).1.status
      (g.growCore env name sc' cost bill step change newSize bytesDelta).2 := by
  unfold growCore
  dsimp only
  rw [hprog, hfee, hcost]
  generalize htransact : FileServer.transact _ bill _ _ _ = res
  have hdup := congrArg (fun r => r.1.duplicate) htransact
  rw [transact_fresh hfresh] at hdup
  obtain ⟨⟨rc, duplicate⟩, g'⟩ := res
  cases rc with
  | ok =>
    obtain rfl : false = duplicate := hdup
    dsimp only
    generalize FileServer.resizeOnDisk _ _ _ _ _ _ _ _ = resized
    obtain ⟨_ | stored, d⟩ := resized
    · exact fun hok => nomatch hok
    · exact fun _ => ⟨sc, hread, g, g', haccounts, htransact, rfl⟩
  | _ => exact fun hok => nomatch hok

/-- The rent that opens APPEND and RESIZE. -/
theorem withRent_rolled {α : Type} {P : α × FileServer → Prop} {refuse : Rc → α} {sc : Sidecar}
    {next : FileServer → Sidecar → α × FileServer} (hdead : ∀ g, P (refuse .fileNotFound, g))
    (hnext : ∀ sc', sc' = { sc with lastRentUs := sc'.lastRentUs } →
      P (next ((f.setAccounts (f.rolled env name sc)).saveSidecar env name sc') sc')) :
    P (f.withRent env name sc refuse next) := by
  unfold withRent
  rcases hroll : f.chargeRentOrDelete env (f.contentPath name) (f.sidecarPath name) sc with ⟨_ | sc', g⟩
  · exact hdead g
  · obtain ⟨rfl, hsc⟩ := rolled_eq hroll
    exact hnext sc' hsc

theorem settles_appendCore {body : Bytes} {caller : Hash} (hfresh : f.isReplay bill = false) :
    f.Settles env bill name
      (fun _ => f.writeCostOf name (UInt64.ofNat body.length) + f.growthCost name (UInt64.ofNat body.length))
      (f.appendCore env name body caller bill).1.status (f.appendCore env name body caller bill).2 := by
  unfold appendCore
  by_cases hbody : body.length = 0 ∨ maxWriteLen < body.length
  · rw [if_pos hbody]
    exact fun hok => nomatch hok
  rw [if_neg hbody]
  dsimp only
  refine withSidecar_rule (P := fun r : SizeOutcome × FileServer => f.Settles env bill name _ r.1.status r.2)
    (fun rc hrc => .refused hrc _) fun sc hread => ?_
  refine withRent_rolled (P := fun r : SizeOutcome × FileServer => f.Settles env bill name _ r.1.status r.2)
    (fun g hok => nomatch hok) fun sc' hsc => ?_
  refine onlyOwner_rule (P := fun r : SizeOutcome × FileServer => f.Settles env bill name _ r.1.status r.2)
    (fun hok => nomatch hok) ?_
  have hprog : sc'.programPubkey = sc.programPubkey := by rw [hsc]
  generalize hrolled : f.rolled env name sc = a
  by_cases hbig : maxFileSize - sc'.size < UInt64.ofNat body.length
  · rw [if_pos hbig]
    exact fun hok => nomatch hok
  rw [if_neg hbig]
  obtain ⟨d, hd⟩ := capFor_disk ((f.setAccounts a).saveSidecar env name sc') env name
    (UInt64.ofNat body.length)
  generalize FileServer.capFor _ env name _ = capped at hd
  obtain ⟨rc, g⟩ := capped
  obtain rfl : g = _ := hd
  cases rc with
  | ok =>
    refine settles_growCore (f := f) (g := { (f.setAccounts a).saveSidecar env name sc' with disk := d }) ?_ rfl hread
      hrolled.symm hprog rfl
    exact (isReplay_congr rfl).trans hfresh
  | _ => exact fun hok => nomatch hok

theorem settles_resizeCore {newSize : UInt64} {caller : Hash} (hfresh : f.isReplay bill = false) :
    f.Settles env bill name (fun sc => f.growthCost name (grownBytes sc newSize))
      (f.resizeCore env name newSize caller bill).1.status (f.resizeCore env name newSize caller bill).2 := by
  unfold resizeCore
  by_cases hsize : newSize = 0 ∨ maxFileSize < newSize
  · rw [if_pos hsize]
    exact fun hok => nomatch hok
  rw [if_neg hsize]
  refine withSidecar_rule (P := fun r : SizeOutcome × FileServer => f.Settles env bill name _ r.1.status r.2)
    (fun rc hrc => .refused hrc _) fun sc hread => ?_
  refine withRent_rolled (P := fun r : SizeOutcome × FileServer => f.Settles env bill name _ r.1.status r.2)
    (fun g hok => nomatch hok) fun sc' hsc => ?_
  refine onlyOwner_rule (P := fun r : SizeOutcome × FileServer => f.Settles env bill name _ r.1.status r.2)
    (fun hok => nomatch hok) ?_
  have hprog : sc'.programPubkey = sc.programPubkey := by rw [hsc]
  generalize hrolled : f.rolled env name sc = a
  dsimp only
  have hsize' : sc'.size = sc.size := by rw [hsc]
  rw [hsize']
  obtain ⟨d, hd⟩ := capFor_disk ((f.setAccounts a).saveSidecar env name sc') env name
    (grownBytes sc newSize)
  unfold grownBytes at hd
  dsimp only at hd
  generalize FileServer.capFor _ env name _ = capped at hd
  obtain ⟨rc, g⟩ := capped
  obtain rfl : g = _ := hd
  cases rc with
  | ok =>
    refine settles_growCore (f := f) (g := { (f.setAccounts a).saveSidecar env name sc' with disk := d }) ?_ rfl hread
      hrolled.symm hprog rfl
    exact (isReplay_congr rfl).trans hfresh
  | _ => exact fun hok => nomatch hok

end verbs

end FileServer

open FileServer

/-- The verbs that change the content of a file at its own cost. -/
inductive WriteOp where
  | write (name : Bytes) (offset : UInt64) (body : Bytes)
  | append (name : Bytes) (body : Bytes)
  | resize (name : Bytes) (newSize : UInt64)

namespace WriteOp

def name : WriteOp → Bytes
  | write name _ _ | append name _ | resize name _ => name

/-- The status and the server after the verb. -/
def run (env : CallEnv) (caller : Hash) (bill : L2Billing) (f : FileServer) : WriteOp → Rc × FileServer
  | write name offset body => let r := f.writeCore env name offset body caller bill; (r.1.status, r.2)
  | append name body => let r := f.appendCore env name body caller bill; (r.1.status, r.2)
  | resize name newSize => let r := f.resizeCore env name newSize caller bill; (r.1.status, r.2)

/-- The write cost and the upfront rent. -/
def cost (f : FileServer) (sc : Sidecar) : WriteOp → UInt64
  | write name _ body => f.writeCostOf name (UInt64.ofNat body.length)
  | append name body => f.writeCostOf name (UInt64.ofNat body.length) + f.growthCost name (UInt64.ofNat body.length)
  | resize name newSize => f.growthCost name (grownBytes sc newSize)

theorem settles_run {f : FileServer} {env : CallEnv} {caller : Hash} {bill : L2Billing}
    (hfresh : f.isReplay bill = false) (op : WriteOp) :
    f.Settles env bill op.name (op.cost f) (op.run env caller bill f).1 (op.run env caller bill f).2 := by
  cases op with
  | write name offset body => exact settles_writeCore hfresh
  | append name body => exact settles_appendCore hfresh
  | resize name newSize => exact settles_resizeCore hfresh

end WriteOp

/-- A write, append or resize that reports success and is no duplicate has a sidecar, and it has taken the query fee
from the payer and its cost from the account of the file, each in full and nothing else, exactly when the account
holds both wherever it pays both. The balances compared are those after the rent was rolled forward. -/
theorem writes_pay_iff (f : FileServer) (env : CallEnv) (caller : Hash) (bill : L2Billing) (op : WriteOp)
    (hok : (op.run env caller bill f).1 = .ok) (hfresh : f.isReplay bill = false) :
    ∃ sc, f.disk.readSidecar f.files (f.sidecarPath op.name) = some sc ∧
      (Billed bill (getHashPrefix sc.programPubkey) f.server.cfg.feeQuery (op.cost f sc) (f.rolled env op.name sc)
          (op.run env caller bill f).2.accounts ↔
        Covered bill (getHashPrefix sc.programPubkey) f.server.cfg.feeQuery (op.cost f sc)
          (f.rolled env op.name sc)) := by
  obtain ⟨sc, hread, htransacts⟩ := WriteOp.settles_run hfresh op hok
  exact ⟨sc, hread, htransacts.billed_iff⟩

/-! ### A program that writes its own file -/

/-- The file `/p/a` of one byte with its content; a written kilobyte costs 4000. -/
def writtenServer : FileServer :=
  { ownFileServer with
    files := { ownFileServer.files with feeFileWrite := 4000 }
    disk := { ownFileServer.disk with
      tree := ⟨ownFileServer.disk.tree.nodes.insert [ascii "d", ascii "p", ascii "a"] (.file (.bytes [0]))⟩ } }

/-- The same, where the owner of the file has an account with 3000. -/
def meteredServer : FileServer :=
  { writtenServer with
    server := .load .stock (ByteArr.zero 32)
      (((∅ : FMap HashPrefix Account).insert (getHashPrefix programKey) (.ofKey programKey 5000 0)).insert
        (getHashPrefix ownerKey) (.ofKey ownerKey 3000 0)) ∅ ∅ }

/-- A metered write by a program of the owner: it pays the fee of 2000, and the file pays 4000. -/
theorem writes_pay_iff_metered :
    let bill : L2Billing := .source ownerKey true
    let r := WriteOp.run quietEnv ownerKey bill meteredServer (.write (ascii "/p/a") 0 [7])
    r.1 = .ok ∧ r.2.balance ownerKey = 1000 ∧ r.2.balance programKey = 1000 ∧
      ∃ sc, meteredServer.disk.readSidecar meteredServer.files (meteredServer.sidecarPath (ascii "/p/a")) = some sc ∧
        (Billed bill (getHashPrefix sc.programPubkey) 2000 4000 (meteredServer.rolled quietEnv (ascii "/p/a") sc)
            r.2.accounts ↔
          Covered bill (getHashPrefix sc.programPubkey) 2000 4000
            (meteredServer.rolled quietEnv (ascii "/p/a") sc)) := by
  intro bill r
  have hok : r.1 = .ok := by decide +kernel
  exact ⟨hok, by decide +kernel, by decide +kernel,
    writes_pay_iff meteredServer quietEnv ownerKey bill (.write (ascii "/p/a") 0 [7]) hok rfl⟩

/-- The program of `/p/a` writes its own file. It holds 5000; the fee of 2000 leaves it short of the 4000 the write
costs, and the byte is written without the account paying for it. -/
theorem own_write_is_free :
    let r := WriteOp.run quietEnv ownerKey (.source programKey true) writtenServer (.write (ascii "/p/a") 0 [7])
    r.1 = .ok ∧ writtenServer.isReplay (.source programKey true) = false ∧
      WriteOp.cost writtenServer programSidecar (.write (ascii "/p/a") 0 [7]) = 4000 ∧
      writtenServer.balance programKey = 5000 ∧ r.2.balance programKey = 3000 ∧
      (r.2.disk.tree.read [ascii "d", ascii "p", ascii "a"]).map (Content.raw r.2.files.toml) = some [7] := by
  decide +kernel

end Ces
