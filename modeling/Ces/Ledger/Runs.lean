import Ces.Ledger.Gossip

/-!
# Signed runs

`handleRunAsset` and `handleRunAlias` once the request is known to be new: reserve the whole budget, then
queue the run, refuse it with a refund, or execute it. The two handlers differ in the program they load.
-/

namespace Ces

open Ces.Lib

/-- What a signed run names. -/
inductive RunTarget where
  | ofAsset (assetId : Hash)
  | ofAlias (aliasId : UInt32)
  deriving DecidableEq

def invokeDirect : UInt64 := 0
def invokeDirectAlias : UInt64 := 3

/-- A request, with the nonce that `resolveNonceless` let through. -/
structure RunRequest where
  originKey : Hash
  target : RunTarget
  budget : UInt64
  allowance : UInt64
  input : Bytes
  time : UInt64
  reqNonce : UInt32
  effectiveNonce : UInt32

/-- The program to run: boot asset, owner, code and how it is invoked. -/
def RunTarget.program (s : CesServer) : RunTarget → Except Rc (Hash × HashPrefix × Bytes × UInt64)
  | .ofAsset assetId =>
    match s.assets.lookup assetId with
    | none => .error .assetNotFound
    | some asset => .ok (assetId, asset.ownerId, asset.content.bytes, invokeDirect)
  | .ofAlias aliasId =>
    match if aliasId = 0 then none else s.aliases.lookup aliasId with
    | none => .error .aliasNotFound
    | some al =>
      if al.op ≠ aliasOpInlineProgram then .error .badInput
      else .ok (ByteArr.zero 32, al.owner, al.content.bytes.take aliasInlineCodeBytes, invokeDirectAlias)

namespace RunRequest

variable (r : RunRequest) (s : CesServer)

def origin : HashPrefix := getHashPrefix r.originKey

/-- The queue entry of a run asked for a later time. The budget is already paid. -/
def scheduled : ScheduledRun where
  callerPrefix := r.origin
  assetId := match r.target with
    | .ofAsset assetId => assetId
    | .ofAlias _ => ByteArr.zero 32
  budget := r.budget
  allowance := r.allowance
  input := r.input
  prepaid := true
  aliasId := match r.target with
    | .ofAsset _ => 0
    | .ofAlias aliasId => aliasId
  invokeKind := VmHost.invokeScheduled

def vmRequest (program : Hash × HashPrefix × Bytes × UInt64) : VmRunRequest where
  callerPrefix := r.origin
  callerKey := r.originKey
  selfAssetKey := program.1
  programOwnerPrefix := program.2.1
  code := program.2.2.1
  input := r.input
  budget := r.budget
  allowance := r.allowance
  gasMult := s.discountFee .vmMult s.cfg.feeVmMult
  enableVerifySig := true
  freeBudget := false
  invokeKind := program.2.2.2
  refillCeiling := 0

/-- Nothing ran: give the budget back. -/
def refund : CesServer := { s with accounts := s.accounts.credit r.origin r.budget }

/-- Everything after the budget is reserved. -/
def proceed (exec : CesServer → VmRunRequest → VmProgram) (now : UInt64) : Rc × CesServer :=
  if 0 < r.time ∧ r.reqNonce ≠ Accounts.nonceless ∧ now < r.time then
    match s.scheduleRun r.scheduled r.time with
    | (.ok, t) => (.ok, t)
    | (rc, t) => (rc, r.refund t)
  else
    match r.target.program s with
    | .error rc => (rc, r.refund s)
    | .ok program =>
      let res := executeVmRun exec s (r.vmRequest s program)
      (res.1.rcode, res.2)

end RunRequest

/-- The error fee of a run is the plain query fee. -/
def handleRun (exec : CesServer → VmRunRequest → VmProgram) (now : UInt64) (r : RunRequest) (s : CesServer) :
    Rc × CesServer :=
  s.spend r.origin 0 r.budget r.effectiveNonce (CesServer.resolveFee (-1) (asInt64 s.cfg.feeQuery))
    (r.proceed (s.debit r.origin r.budget) exec now)

/-! ### The tally -/

/-- A query fee that is not negative as an `int64_t`, and a program that runs clean. -/
structure HandleRunClean (exec : CesServer → VmRunRequest → VmProgram) (r : RunRequest) (s : CesServer) : Prop where
  fee : s.cfg.feeQuery.toNat < 2 ^ 63
  run : ∀ program, r.target.program s = .ok program →
    VmRunClean exec (s.debit r.origin r.budget) (r.vmRequest s program)

section

variable {exec : CesServer → VmRunRequest → VmProgram} {now : UInt64} {r : RunRequest} {s : CesServer}

theorem RunRequest.tallied_refund (h : s.accounts.Tallied) (hnonneg : 0 ≤ s.accounts.balance r.origin) :
    (r.refund s).accounts.Tallied :=
  Accounts.tallied_credit h (.inl hnonneg)

theorem RunRequest.tallied_proceed (h : s.accounts.Tallied) (hnonneg : 0 ≤ s.accounts.balance r.origin)
    (hrun : ∀ program, r.target.program s = .ok program → VmRunClean exec s (r.vmRequest s program)) :
    (r.proceed s exec now).2.accounts.Tallied := by
  unfold proceed
  split_ifs
  · unfold CesServer.scheduleRun CesServer.scheduleRunUndoable
    split_ifs
    · exact tallied_refund h hnonneg
    · exact h
  · cases hprogram : r.target.program s with
    | error rc => exact tallied_refund h hnonneg
    | ok program => exact tallied_executeVmRun (hrun program hprogram) h

theorem tallied_handleRun (hclean : HandleRunClean exec r s) (h : s.accounts.Tallied) :
    (handleRun exec now r s).2.accounts.Tallied := by
  have hfee : CesServer.resolveFee (-1) (asInt64 s.cfg.feeQuery) = s.cfg.feeQuery.toNat := by
    rw [asInt64_of_lt hclean.fee]
    rfl
  have hfee64 := hclean.fee
  unfold handleRun
  rw [hfee]
  refine CesServer.spend_rule (P := fun t => t.accounts.Tallied) h
    (Accounts.tallied_chargeError h (by omega) (by omega)) fun hcovers => ?_
  have hsmall : r.budget.toNat < 2 ^ 63 := by simpa using hcovers.total_lt
  refine RunRequest.tallied_proceed (Accounts.tallied_debit h hsmall hcovers.nonneg)
    (Accounts.balance_debit_nonneg hsmall hcovers.nonneg) fun program hprogram => ?_
  exact hclean.run program hprogram

end

end Ces
