import Ces.Lib.UndoLog
import Ces.Vm.Host

/-!
# Running a program

`executeVmRun` is the transaction every VM run goes through: run the program against a fresh host, then
commit (dispatch the deferred effects) or revert (replay the undo log backwards), refund the unused
budget, charge the refilled gas, and fire the watch hooks a committed run caused. The interpreter is the
parameter `exec`: what it makes of a request under the fees in force when the run starts.

A hook is itself a run, under the flag `inHook` that keeps it from causing further hooks, so the nesting
stops there and no recursion is needed.
-/

namespace Ces

open Ces.Lib

namespace CesServer

/-- Undo one logged write. -/
def undo (e : UndoEntry) (s : CesServer) : CesServer :=
  match e with
  | .account key old => { s with accounts.store := s.accounts.store.restore key old }
  | .asset key old => { s with assets := s.assets.restore key old }
  | .alias key old => { s with aliases := s.aliases.restore key old }
  | .schedule key => { s with scheduledRuns := s.scheduledRuns.erase key }

def sendApplication (s : CesServer) (u : DeferredUdp) : CesServer := s.emit (.udp u.addr u.port u.data)

/-- Dispatch a deferred settlement, unless the peer's address does not resolve any more. -/
def settle (s : CesServer) (cx : DeferredCrossXfer) : CesServer :=
  match s.settlementLoad cx.server cx.peerKey with
  | none => s
  | some _ => s.emit (.settlement cx.server cx.peerKey cx.dest cx.amount)

/-- Give a deferred L2 call its id, count it and post its drain. -/
def postL2Call (s : CesServer) (p : PendingL2Call) : CesServer :=
  { s with l2NextCallId := s.l2NextCallId + 1, l2PendingCount := s.l2PendingCount + 1 }.emit
    (.l2Drain { p with callId := s.l2NextCallId })

end CesServer

/-- The deferred effects of a committed run, in the order they are dispatched. -/
def VmHost.commit (h : VmHost) : CesServer :=
  let s := h.deferredUdp.foldl CesServer.sendApplication h.server
  let s := h.deferredCrossXfers.foldl CesServer.settle s
  h.newL2Calls.foldl CesServer.postL2Call s

/-- Crashes cost a fee; a clean end and an abort do not. -/
def vmPenalty (error : VmError) : UInt64 :=
  if error = .ok ∨ error = .abort then 0 else cesvmCrashFee

/-- Refund what the caller prepaid and the run did not use. A free budget was debited from no one. -/
def refundBudget (req : VmRunRequest) (res : VmResult) (s : CesServer) : CesServer :=
  let spent := res.budgetUsed + vmPenalty res.error
  if !req.freeBudget ∧ spent < req.budget then
    { s with accounts := s.accounts.credit req.callerPrefix (req.budget - spent) }
  else s

/-- Charge the gas burned past the budget, as far as a refill granted it and the balance covers it. -/
def chargeRefill (req : VmRunRequest) (res : VmResult) (refilledTotal : UInt64) (s : CesServer) :
    CesServer :=
  if 0 < refilledTotal ∧ req.budget < res.budgetUsed then
    let consumed := min (res.budgetUsed - req.budget) refilledTotal
    let pay := min consumed (asUInt64 (max 0 (s.accounts.balance req.callerPrefix)))
    if 0 < consumed ∧ 0 < pay then { s with accounts := s.accounts.debit req.callerPrefix pay } else s
  else s

structure VmRunResult where
  rcode : Rc
  vmError : VmError
  budgetUsed : UInt64
  allowanceUsed : UInt64
  output : Bytes

section

variable (exec : CesServer → VmRunRequest → VmProgram)

/-- The program of the request, run to its end. -/
def runProgram (s : CesServer) (req : VmRunRequest) : VmResult × VmHost :=
  (exec s req).run VmHost.handle (.ofRequest s req)

def vmRunResult (req : VmRunRequest) (res : VmResult) (h : VmHost) : VmRunResult where
  rcode := if res.error = .ok then .ok else .vmFailed
  vmError := res.error
  budgetUsed := res.budgetUsed
  allowanceUsed :=
    if req.allowance ≠ uint64Max ∧ h.allowance ≤ req.allowance then req.allowance - h.allowance else 0
  output := if res.error = .ok then res.output else []

/-- Commit or revert, refund and refill charge: `executeVmRun` up to its deferred hooks. -/
def settleRun (req : VmRunRequest) (res : VmResult) (h : VmHost) : CesServer :=
  let s := if res.error = .ok then h.commit else revert CesServer.undo h.undoLog h.server
  chargeRefill req res h.refilledTotal (refundBudget req res s)

/-- A run inside a hook: it defers no hooks. -/
def executeHookRun (s : CesServer) (req : VmRunRequest) : VmRunResult × CesServer :=
  let r := runProgram exec s req
  (vmRunResult req r.1 r.2, settleRun req r.1 r.2)

def invokeHookXferVm : UInt64 := 18

/-- The event descriptor a hook reads: counterparty, amount, balance. -/
def hookInput (counterpartyKey : Hash) (amount : UInt64) (balance : Int) : Bytes :=
  counterpartyKey.bytes ++ leBytes 8 amount.toNat ++ leBytes 8 (asUInt64 balance).toNat

/-- The request of a hook run: the free grant as budget, and nothing of the account's to spend. -/
def accountHookRequest (s : CesServer) (hookedKey : Hash) (code : Bytes) (selfAssetKey : Hash)
    (programOwnerPrefix : HashPrefix) (invokeKind : UInt64) (counterpartyKey : Hash) (amount : UInt64)
    (balance : Int) (refillCeiling : UInt64) : VmRunRequest :=
  let gasMult := s.discountFee .vmMult s.cfg.feeVmMult
  { callerPrefix := getHashPrefix hookedKey
    callerKey := hookedKey
    selfAssetKey := selfAssetKey
    programOwnerPrefix := programOwnerPrefix
    code := code
    input := hookInput counterpartyKey amount balance
    budget := s.hookFreeGrant
    allowance := 0
    gasMult := if gasMult = 0 then 1 else gasMult
    enableVerifySig := false
    freeBudget := true
    invokeKind := invokeKind
    refillCeiling := refillCeiling }

/-- A clean end accepts; an abort, a fault or running out of gas rejects. -/
def runAccountHook (s : CesServer) (hookedKey : Hash) (code : Bytes) (selfAssetKey : Hash)
    (programOwnerPrefix : HashPrefix) (invokeKind : UInt64) (counterpartyKey : Hash) (amount : UInt64)
    (balance : Int) (refillCeiling : UInt64) : Bool × CesServer :=
  if s.inHook then (true, s)
  else
    let r := executeHookRun exec { s with inHook := true }
      (accountHookRequest s hookedKey code selfAssetKey programOwnerPrefix invokeKind counterpartyKey
        amount balance refillCeiling)
    (r.1.vmError == .ok, { r.2 with inHook := false })

/-- What a matching hook runs: its code, boot asset, principal and refill ceiling. A gate runs without
principal and refill. `none` when the trigger asset is gone. -/
def hookProgram (s : CesServer) (owner : HashPrefix) (al : Alias) (wantGate : Bool) :
    Option (Bytes × Hash × HashPrefix × UInt64) :=
  if aliasOpIsInline al.op then
    some (al.content.bytes.take aliasInlineCodeBytes, ByteArr.zero 32,
      if wantGate then ByteArr.zero 8 else owner,
      if wantGate then 0
      else UInt64.ofNat (leNat (al.content.slice aliasInlineCodeBytes 8).bytes))
  else
    match s.assets.lookup (al.content.slice 0 32) with
    | none => none
    | some trigger =>
      some (trigger.content.bytes, al.content.slice 0 32,
        if !wantGate ∧ trigger.ownerId = owner then owner else ByteArr.zero 8,
        if wantGate then 0 else UInt64.ofNat (leNat (al.content.slice 32 8).bytes))

/-- The alias that hooks `accountKey` for the wanted class, with the account's balance. -/
def hookAlias (s : CesServer) (accountKey : Hash) (wantGate : Bool) : Option (Alias × Int) :=
  match s.accounts.find (getHashPrefix accountKey) with
  | none => none
  | some acc =>
    if acc.getBalance < 0 ∨ acc.getKey (getHashPrefix accountKey) ≠ accountKey ∨ acc.aliasId = 0 then none
    else
      match s.aliases.lookup acc.aliasId with
      | none => none
      | some al =>
        if al.owner = getHashPrefix accountKey ∧
            (if wantGate then aliasOpIsGate al.op else aliasOpIsWatch al.op) then
          some (al, acc.getBalance)
        else none

/-- Fire the account's hook of the wanted class, if it has one. -/
def fireAccountHook (s : CesServer) (accountKey : Hash) (wantGate : Bool) (invokeKind : UInt64)
    (counterpartyKey : Hash) (amount : UInt64) : Bool × CesServer :=
  match hookAlias s accountKey wantGate with
  | none => (true, s)
  | some (al, bal) =>
    match hookProgram s (getHashPrefix accountKey) al wantGate with
    | none => (false, s)
    | some (code, selfAssetKey, principal, ceiling) =>
      runAccountHook exec s accountKey code selfAssetKey principal invokeKind counterpartyKey amount bal
        ceiling

/-- Fire the watches of a committed run. -/
def fireDeferred (s : CesServer) (hooks : List DeferredHook) : CesServer :=
  hooks.foldl (fun s h =>
    (fireAccountHook exec s h.dest false invokeHookXferVm h.counterparty h.amount).2) s

def executeVmRun (s : CesServer) (req : VmRunRequest) : VmRunResult × CesServer :=
  let r := runProgram exec s req
  let s' := settleRun req r.1 r.2
  (vmRunResult req r.1 r.2, if r.1.error = .ok then fireDeferred exec s' r.2.deferredHooks else s')

end

end Ces
