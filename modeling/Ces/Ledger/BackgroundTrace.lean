import Ces.Ledger.Steps
import Ces.Ledger.TransferTrace

/-!
# The touches of runs, mints, gossip and the daily pass

The operations that are no transfer and no asset or alias request: signed and queued runs, the work reward, the
mints and debits behind the L2 handlers, the hops of a gossip, and the daily walks over the maps.
-/

namespace Ces

open Ces.Lib CesServer

/-! ### Signed and queued runs -/

section runs

variable (exec : CesServer → VmRunRequest → VmProgram)

namespace RunRequest

variable (r : RunRequest) (s : CesServer)

def refundTouches : List Touch := [.credit .refund r.origin r.budget]

def proceedTouches (now : UInt64) : List Touch :=
  if 0 < r.time ∧ r.reqNonce ≠ Accounts.nonceless ∧ now < r.time then
    if (s.scheduleRun r.scheduled r.time).1 = .ok then [] else r.refundTouches
  else
    match r.target.program s with
    | .error _ => r.refundTouches
    | .ok program => vmRunTouches exec s (r.vmRequest s program)

end RunRequest

def handleRunTouches (now : UInt64) (r : RunRequest) (s : CesServer) : List Touch :=
  s.spendTouches r.origin 0 r.budget r.effectiveNonce (resolveFee (-1) (asInt64 s.cfg.feeQuery)) <|
    .debit r.origin r.budget none :: r.proceedTouches exec (s.debit r.origin r.budget) now

def scheduledProgramTouches (s : CesServer) (run : ScheduledRun) (callerKey : Hash) : List Touch :=
  match scheduledProgram s run with
  | none => []
  | some program => vmRunTouches exec s (scheduledRequest s.cfg run callerKey program)

def scheduledRunTouches (s : CesServer) (run : ScheduledRun) : List Touch :=
  match s.accounts.find run.callerPrefix with
  | none => []
  | some origin =>
    if run.prepaid = false ∧ origin.getBalance < asInt64 run.budget then []
    else
      (if run.prepaid then [] else [.debit run.callerPrefix run.budget none]) ++
        scheduledProgramTouches exec (reserveBudget s run) run (origin.getKey run.callerPrefix)

def cronTouches (s : CesServer) (now : UInt64) (key : ScheduleKey) : List Touch :=
  match LedgerOp.dueRun s now key with
  | none => []
  | some queued => scheduledRunTouches exec { s with scheduledRuns := s.scheduledRuns.erase key } queued

variable {exec} (reg : Regime) {s : CesServer} {now : UInt64}

theorem cells_scheduleRun (s : CesServer) (run : ScheduledRun) (timeUs : UInt64) :
    (s.scheduleRun run timeUs).2.cells = s.cells := by
  unfold scheduleRun scheduleRunUndoable
  split_ifs <;> rfl

namespace RunRequest

variable {r : RunRequest}

theorem touched_refund : Touched reg s.cells r.refundTouches (r.refund s).cells := by
  refine .of_act (fun hsource => absurd hsource (by decide)) ?_
  exact congrArg (fun st => Cells.mk st s.assets s.aliases) (s.accounts.store_credit _ _).symm

theorem touched_proceed :
    Touched reg s.cells (r.proceedTouches exec s now) (r.proceed s exec now).2.cells := by
  unfold proceedTouches proceed
  by_cases hlater : 0 < r.time ∧ r.reqNonce ≠ Accounts.nonceless ∧ now < r.time
  · rw [if_pos hlater, if_pos hlater]
    have hcells := cells_scheduleRun s r.scheduled r.time
    rcases hqueue : s.scheduleRun r.scheduled r.time with ⟨rc, t⟩
    rw [hqueue] at hcells
    rw [← hcells]
    cases rc with
    | ok => exact .nil _
    | _ => exact touched_refund reg
  · rw [if_neg hlater, if_neg hlater]
    cases r.target.program s with
    | error rc => exact touched_refund reg
    | ok program => exact touched_executeVmRun reg s _

end RunRequest

theorem touched_handleRun (r : RunRequest) :
    Touched reg s.cells (handleRunTouches exec now r s) (handleRun exec now r s).2.cells := by
  refine touched_spend fun hcovers => ?_
  have hsmall : r.budget.toNat < 2 ^ 63 := by simpa using hcovers.total_lt
  obtain ⟨acc, hacc⟩ := Option.ne_none_iff_exists'.mp hcovers.found
  refine (touched_debit reg s hacc ?_).append (RunRequest.touched_proceed reg)
  rw [asInt64_of_lt hsmall, ← Accounts.balance_of_find hacc]
  simpa using hcovers.covered

theorem touched_scheduledProgram (run : ScheduledRun) (callerKey : Hash) :
    Touched reg s.cells (scheduledProgramTouches exec s run callerKey)
      (runScheduledProgram exec s run callerKey).cells := by
  unfold scheduledProgramTouches runScheduledProgram
  cases scheduledProgram s run with
  | none => exact .nil _
  | some program => exact touched_executeVmRun reg s _

theorem touched_scheduledRun (run : ScheduledRun) :
    Touched reg s.cells (scheduledRunTouches exec s run) (executeScheduledRun exec s run).2.cells := by
  unfold scheduledRunTouches executeScheduledRun
  cases hfind : s.accounts.find run.callerPrefix with
  | none => exact .nil _
  | some origin =>
    dsimp only
    by_cases hpoor : run.prepaid = false ∧ origin.getBalance < asInt64 run.budget
    · rw [if_pos hpoor, if_pos hpoor]
      exact .nil _
    · rw [if_neg hpoor, if_neg hpoor]
      refine Runs.append ?_ (touched_scheduledProgram reg run _)
      unfold reserveBudget
      cases hprepaid : run.prepaid with
      | true => exact .nil _
      | false => exact touched_debit reg s hfind (not_lt.mp fun h => hpoor ⟨hprepaid, h⟩)

theorem touched_cronTurn (key : ScheduleKey) :
    Touched reg s.cells (cronTouches exec s now key) (LedgerOp.cronTurn exec s now key).cells := by
  unfold cronTouches LedgerOp.cronTurn
  cases LedgerOp.dueRun s now key with
  | none => exact .nil _
  | some queued => exact touched_scheduledRun (s := { s with scheduledRuns := s.scheduledRuns.erase key }) reg queued

end runs

/-! ### Mints and direct debits -/

namespace Accounts

variable (a : Accounts)

def proveWorkTouches (maxAcc : Nat) (feeAccount : UInt64) (ckey : Hash) (difficulty : Nat) : List Touch :=
  if difficulty < 1 then []
  else
    match a.find (getHashPrefix ckey) with
    | none =>
      if maxAcc ≤ a.store.size ∨ powReward difficulty < feeAccount then []
      else [.create .work ckey (asInt64 (capAmount (powReward difficulty - feeAccount))) 0]
    | some acc =>
      if acc.getBalance < 0 then [] else [.credit .work (getHashPrefix ckey) (powReward difficulty)]

def brrTouches (key : Hash) (amount : Int) : List Touch :=
  if amount ≤ 0 then [] else [creditOrCreateTouch .mint .mint a key (asUInt64 (min amount balanceMax))]

def burnTouches (key : Hash) (amount : Int) : List Touch :=
  match a.find (getHashPrefix key) with
  | none => []
  | some acc =>
    if 0 < min amount acc.getBalance then
      [.debit (getHashPrefix key) (asUInt64 (min amount acc.getBalance)) none]
    else []

def walletSendTouches (serverKey destKey : Hash) (amount : UInt64) : List Touch :=
  match a.find (getHashPrefix serverKey) with
  | none => []
  | some acc =>
    if 0 < amount ∧ 0 ≤ acc.getBalance ∧ (amount.toNat : Int) ≤ acc.getBalance then
      a.burnTouches serverKey (asInt64 amount) ++
        (a.burnInner serverKey (asInt64 amount)).brrTouches destKey (asInt64 amount)
    else []

def signerSpendTouches (signer : Hash) (amount : UInt64) (reqNonce : UInt32) (errFee : Int) : List Touch :=
  if amount = 0 then []
  else if (a.validateSpend (getHashPrefix signer) amount 0 reqNonce errFee).1 = .ok then
    [.debit (getHashPrefix signer) amount none]
  else [.fine (getHashPrefix signer) errFee]

def debitAccountTouches (key : Hash) (amount : UInt64) : List Touch :=
  match a.find (getHashPrefix key) with
  | none => []
  | some acc => if acc.getBalance < asInt64 amount then [] else [.debit (getHashPrefix key) amount none]

def debitProgramAccountTouches (key : Hash) (amount : Int) : List Touch :=
  match a.find (getHashPrefix key) with
  | none => []
  | some acc => if acc.getBalance < amount then [] else [.debitRaw (getHashPrefix key) (asUInt64 amount)]

def mailChargeTouches (payer : Hash) (price : UInt64) : List Touch :=
  if price = 0 then []
  else
    match a.find (getHashPrefix payer) with
    | none => []
    | some acc => if acc.getBalance < asInt64 price then [] else a.burnTouches payer (asInt64 price)

def topUpTouches (serverKey : Hash) : List Touch :=
  match a.find (getHashPrefix serverKey) with
  | none => [.create .server serverKey serverAccountTarget 0]
  | some acc =>
    if acc.getBalance = serverAccountTarget then [] else [.reset (getHashPrefix serverKey) serverAccountTarget]

end Accounts

section mints

variable (reg : Regime) (s : CesServer)

theorem touched_proveWork (ckey : Hash) (difficulty : Nat) :
    Touched s.regime s.cells (s.accounts.proveWorkTouches s.cfg.maxAcc s.cfg.feeAccount ckey difficulty)
      { s with accounts := s.accounts.proveWork s.cfg.maxAcc s.cfg.feeAccount ckey difficulty }.cells := by
  unfold Accounts.proveWorkTouches Accounts.proveWork
  dsimp only
  by_cases hfree : difficulty < 1
  · rw [if_pos hfree, if_pos hfree]
    exact .nil _
  rw [if_neg hfree, if_neg hfree]
  cases hfind : s.accounts.find (getHashPrefix ckey) with
  | none =>
    dsimp only
    split_ifs with hfull
    · exact .nil _
    · rw [not_or] at hfull
      exact .single ⟨.inr (.inr hfind), fun _ => not_le.mp hfull.1⟩
  | some acc =>
    dsimp only
    split_ifs with hneg
    · exact .nil _
    · refine .of_act (fun _ => ⟨acc, hfind, not_lt.mp hneg⟩) ?_
      exact congrArg (fun st => Cells.mk st s.assets s.aliases) (s.accounts.store_credit _ _).symm

theorem touched_brrInner (key : Hash) (amount : Int) :
    Touched reg s.cells (s.accounts.brrTouches key amount)
      { s with accounts := s.accounts.brrInner key amount }.cells := by
  unfold Accounts.brrTouches Accounts.brrInner
  split_ifs
  · exact .nil _
  · exact touched_creditOrCreate reg s .mint .mint (by decide) (by decide) key _

theorem touched_burnInner (key : Hash) (amount : Int) :
    Touched reg s.cells (s.accounts.burnTouches key amount)
      { s with accounts := s.accounts.burnInner key amount }.cells := by
  unfold Accounts.burnTouches Accounts.burnInner
  cases hfind : s.accounts.find (getHashPrefix key) with
  | none => exact .nil _
  | some acc =>
    have hupper := acc.getBalance_upper
    unfold balanceMax at hupper
    dsimp only
    split_ifs with hpos
    · have hcast : ((asUInt64 (min amount acc.getBalance)).toNat : Int) = min amount acc.getBalance :=
        asUInt64_toNat_of_nonneg (by omega) (by omega)
      refine touched_debit reg s hfind ?_
      rw [asInt64_of_lt (by omega)]
      omega
    · exact .nil _

theorem touched_walletSend (serverKey destKey : Hash) (amount : UInt64) :
    Touched reg s.cells (s.accounts.walletSendTouches serverKey destKey amount)
      { s with accounts := (s.accounts.walletSend serverKey destKey amount).2 }.cells := by
  unfold Accounts.walletSendTouches Accounts.walletSend
  cases s.accounts.find (getHashPrefix serverKey) with
  | none => exact .nil _
  | some acc =>
    dsimp only
    split_ifs
    · generalize asInt64 amount = signedAmount
      exact (touched_burnInner reg s serverKey signedAmount).append
        (touched_brrInner reg { s with accounts := s.accounts.burnInner serverKey signedAmount } destKey _)
    · exact .nil _

/-- A charge that is not zero is a spend of the signer. -/
theorem signerSpend_eq_spend (signer : Hash) {amount : UInt64} (hamount : amount ≠ 0) (reqNonce : UInt32)
    (errFee : Int) :
    { s with accounts := (s.accounts.signerSpend signer amount reqNonce errFee).2 } =
      (s.spend (getHashPrefix signer) amount 0 reqNonce errFee (.ok, s.debit (getHashPrefix signer) amount)).2 := by
  unfold Accounts.signerSpend spend spendOr
  rw [if_neg hamount]
  rcases s.accounts.validateSpend (getHashPrefix signer) amount 0 reqNonce errFee with ⟨rc, a⟩
  cases rc <;> rfl

theorem touched_signerSpend (signer : Hash) (amount : UInt64) (reqNonce : UInt32) (errFee : Int) :
    Touched reg s.cells (s.accounts.signerSpendTouches signer amount reqNonce errFee)
      { s with accounts := (s.accounts.signerSpend signer amount reqNonce errFee).2 }.cells := by
  unfold Accounts.signerSpendTouches
  by_cases hzero : amount = 0
  · have hfree : (s.accounts.signerSpend signer amount reqNonce errFee).2 = s.accounts := by
      unfold Accounts.signerSpend
      rw [if_pos hzero]
    rw [if_pos hzero, hfree]
    exact .nil _
  rw [if_neg hzero, signerSpend_eq_spend s signer hzero]
  refine touched_spend fun hcovers => ?_
  have hsmall : amount.toNat < 2 ^ 63 := by simpa using hcovers.total_lt
  obtain ⟨acc, hacc⟩ := Option.ne_none_iff_exists'.mp hcovers.found
  refine touched_debit reg s hacc ?_
  rw [asInt64_of_lt hsmall, ← Accounts.balance_of_find hacc]
  simpa using hcovers.covered

theorem touched_debitAccount (key : Hash) (amount : UInt64) :
    Touched reg s.cells (s.accounts.debitAccountTouches key amount)
      { s with accounts := (s.accounts.debitAccount key amount).2 }.cells := by
  unfold Accounts.debitAccountTouches Accounts.debitAccount
  cases hfind : s.accounts.find (getHashPrefix key) with
  | none => exact .nil _
  | some acc =>
    dsimp only
    by_cases hpoor : acc.getBalance < asInt64 amount
    · rw [if_pos hpoor, if_pos hpoor]
      exact .nil _
    · rw [if_neg hpoor, if_neg hpoor]
      exact touched_debit reg s hfind (not_lt.mp hpoor)

theorem touched_debitProgramAccount (key : Hash) (amount : Int) :
    Touched reg s.cells (s.accounts.debitProgramAccountTouches key amount)
      { s with accounts := (s.accounts.debitProgramAccount key amount).2 }.cells := by
  unfold Accounts.debitProgramAccountTouches Accounts.debitProgramAccount
  cases s.accounts.find (getHashPrefix key) with
  | none => exact .nil _
  | some acc =>
    dsimp only
    split_ifs
    · exact .nil _
    · refine .of_act trivial ?_
      exact congrArg (fun st => Cells.mk st s.assets s.aliases) (s.accounts.store_debit _ _).symm

theorem touched_mailCharge (payer : Hash) (price : UInt64) :
    Touched reg s.cells (s.accounts.mailChargeTouches payer price)
      { s with accounts := (s.accounts.mailCharge payer price).2 }.cells := by
  unfold Accounts.mailChargeTouches Accounts.mailCharge
  by_cases hzero : price = 0
  · rw [if_pos hzero, if_pos hzero]
    exact .nil _
  rw [if_neg hzero, if_neg hzero]
  cases s.accounts.find (getHashPrefix payer) with
  | none => exact .nil _
  | some acc =>
    dsimp only
    generalize asInt64 price = signedPrice
    split_ifs
    · exact .nil _
    · exact touched_burnInner reg s payer signedPrice

theorem touched_topUp : Touched reg s.cells (s.accounts.topUpTouches s.serverKey) (topUp s).cells := by
  unfold Accounts.topUpTouches topUp Accounts.topUpServerAccount
  dsimp only
  cases hfind : s.accounts.find (getHashPrefix s.serverKey) with
  | none => exact .single ⟨.inr (.inr hfind), fun hsource => absurd hsource (by decide)⟩
  | some acc =>
    dsimp only
    split_ifs
    · exact .nil _
    · have hlookup : s.cells.accounts.lookup (getHashPrefix s.serverKey) = some acc := hfind
      exact .of_act trivial (Cells.mapAccount_of_some hlookup rfl)

end mints

/-! ### Gossip -/

/-- The write of `creditKeyed`. -/
def keyedTouch (credit : CreditSource) (create : CreateSource) (a : Accounts) (key : Hash) (amount : UInt64) :
    Touch :=
  match a.find (getHashPrefix key) with
  | some acc =>
    if acc.getKey (getHashPrefix key) = key then .credit credit (getHashPrefix key) amount
    else .create create key (asInt64 amount) 0
  | none => .create create key (asInt64 amount) 0

def ackTouches (s : CesServer) (peerKey : Hash) (authorized : UInt64) (rc : Rc) (paid : UInt64) : List Touch :=
  if rc ≠ .ok ∨ paid = 0 then []
  else [keyedTouch .leg .leg s.accounts peerKey (Accounts.capAmount (min paid authorized))]

namespace CesGossip

variable (req : CesGossip) (s : CesServer)

def sinkTouches : List Touch :=
  let delivered := Accounts.capAmount (req.collectable s - req.skim s)
  let debited := s.accounts.debit req.senderPfx (req.collectable s)
  if 0 < req.collectable s then
    .debit req.senderPfx (req.collectable s) none ::
      if req.dest ≠ s.serverKey ∧ 0 < delivered then [keyedTouch .sink .sink debited req.dest delivered] else []
  else []

def broadcastTouches (shuffle : List GossipCand → List GossipCand) : List Touch :=
  if req.collectable s = 0 then []
  else
    let plan := s.computeGossipFanout shuffle (req.collectable s - req.skim s) req.originId
    [.debit req.senderPfx (req.skim s + plan.fanned) none]

end CesGossip

def gossipTouches (s : CesServer) (shuffle : List GossipCand → List GossipCand) (req : CesGossip) : List Touch :=
  match s.gossipSeen.lookup req.mid with
  | some _ => []
  | none => if s.isSink req.dest then req.sinkTouches s else req.broadcastTouches s shuffle

section gossip

variable (reg : Regime)

theorem touched_creditKeyed (s : CesServer) {credit : CreditSource} {create : CreateSource}
    (hcredit : credit ≠ .transfer ∧ credit ≠ .work) (hcreate : create = .sink ∨ create = .leg) (key : Hash)
    (amount : UInt64) :
    Touched reg s.cells [keyedTouch credit create s.accounts key amount]
      { s with accounts := s.accounts.creditKeyed key amount }.cells := by
  have hcan : ∀ c : Cells, Touch.Can reg (.create create key (asInt64 amount) 0) c := by
    intro c
    rcases hcreate with rfl | rfl
    · exact ⟨.inl rfl, fun hsource => absurd hsource (by decide)⟩
    · exact ⟨.inr (.inl rfl), fun hsource => absurd hsource (by decide)⟩
  unfold keyedTouch Accounts.creditKeyed
  cases hfind : s.accounts.find (getHashPrefix key) with
  | none => exact .single (hcan _)
  | some acc =>
    dsimp only
    by_cases hkey : acc.getKey (getHashPrefix key) = key
    · rw [if_pos hkey, if_pos hkey]
      refine .of_act (fun hsource => ?_) ?_
      · exact absurd hsource (not_or.mpr hcredit)
      · exact congrArg (fun st => Cells.mk st s.assets s.aliases) (s.accounts.store_credit _ _).symm
    · rw [if_neg hkey, if_neg hkey]
      exact .single (hcan _)

theorem touched_ackGossipLeg (s : CesServer) (peerKey : Hash) (authorized : UInt64) (rc : Rc) (paid : UInt64) :
    Touched reg s.cells (ackTouches s peerKey authorized rc paid)
      (ackGossipLeg s peerKey authorized rc paid).cells := by
  unfold ackTouches ackGossipLeg
  split_ifs
  · exact .nil _
  · exact touched_creditKeyed reg s (by decide) (.inr rfl) _ _

namespace CesGossip

variable {req : CesGossip} {s : CesServer}

/-- A charge within what can be collected is covered. -/
theorem touched_charge {charge : UInt64} (hpos : 0 < (req.collectable s).toNat)
    (hle : charge.toNat ≤ (req.collectable s).toNat) :
    Touched reg s.cells [.debit req.senderPfx charge none] (s.debit req.senderPfx charge).cells := by
  obtain ⟨acc, hfind, -, hcovered⟩ := collectable_covered hpos
  have hupper := acc.getBalance_upper
  unfold balanceMax at hupper
  refine touched_debit reg s hfind ?_
  rw [asInt64_of_lt (by omega)]
  omega

theorem touched_sink (addr : SockAddr) : Touched reg s.cells (req.sinkTouches s) (req.sink s addr).cells := by
  unfold sinkTouches sink
  dsimp only
  by_cases hpos : 0 < req.collectable s
  · rw [if_pos hpos, if_pos hpos]
    have hdebit := touched_charge reg (UInt64.lt_iff_toNat_lt.mp hpos) (le_refl (req.collectable s).toNat)
    change Touched reg _ _ { s with accounts := req.sinkAccounts s }.cells
    unfold sinkAccounts
    dsimp only
    split_ifs
    · exact hdebit.append
        (touched_creditKeyed reg (s.debit req.senderPfx (req.collectable s)) (by decide) (.inl rfl) _ _)
    · exact hdebit
  · rw [if_neg hpos, if_neg hpos]
    exact .nil _

theorem cells_dispatchGossipFanout (t : CesServer) (authorId msgId dest : Hash) (msg : Bytes) (plan : FanoutPlan) :
    (t.dispatchGossipFanout authorId msgId dest msg plan).cells = t.cells := by
  refine foldl_keeps CesServer.cells (fun u leg => ?_) _ _
  cases u.settlementLoad leg.address leg.key <;> rfl

theorem touched_broadcast (shuffle : List GossipCand → List GossipCand) (addr : SockAddr) :
    Touched reg s.cells (req.broadcastTouches s shuffle) (req.broadcast s shuffle addr).cells := by
  unfold broadcastTouches broadcast
  by_cases hzero : req.collectable s = 0
  · rw [if_pos hzero, if_pos hzero]
    exact .nil _
  rw [if_neg hzero, if_neg hzero]
  have hpos : 0 < (req.collectable s).toNat :=
    Nat.pos_of_ne_zero fun hnil => hzero (UInt64.toNat_inj.mp hnil)
  have hskim : (req.skim s).toNat ≤ (req.collectable s).toNat := skim_le
  have hfanned := s.fanned_le shuffle (req.collectable s - req.skim s) req.originId
  dsimp only
  rw [cells_dispatchGossipFanout]
  generalize (s.computeGossipFanout shuffle (req.collectable s - req.skim s) req.originId).fanned = fanned
    at hfanned ⊢
  rw [UInt64.toNat_sub_of_le _ _ (UInt64.le_iff_toNat_le.mpr hskim)] at hfanned
  have hcharge : (req.skim s + fanned).toNat ≤ (req.collectable s).toNat := by
    rw [UInt64.toNat_add]
    exact (Nat.mod_le _ _).trans (by omega)
  exact touched_charge reg hpos hcharge

end CesGossip

theorem touched_handleGossip (s : CesServer) (shuffle : List GossipCand → List GossipCand) (req : CesGossip)
    (addr : SockAddr) :
    Touched reg s.cells (gossipTouches s shuffle req) (handleGossip s shuffle req addr).cells := by
  unfold gossipTouches handleGossip
  cases s.gossipSeen.lookup req.mid with
  | some seen => exact .nil _
  | none =>
    dsimp only
    split_ifs
    · exact CesGossip.touched_sink reg addr
    · exact CesGossip.touched_broadcast reg shuffle addr

end gossip

end Ces
