import Ces.Vm.Atomic
import Ces.Vm.Fast

/-!
# What an aborted run leaves behind

An aborted run gives back every cell it touched (`runProgram_step` and the undo log). What it keeps is
the settlement that follows the revert: the refund of the unused budget and the charge for refilled gas,
both on the caller's account (`abort_restores_ledger`). Outside the ledger it keeps whatever its calls
sent at once (`abort_sends_nothing_iff`).
-/

namespace Ces

open Ces.Lib

section

variable (exec : CesServer → VmRunRequest → VmProgram) (s : CesServer) (req : VmRunRequest)

theorem runProgram_step : VmHost.Step (.ofRequest s req) (runProgram exec s req).2 :=
  Program.run_rel VmHost.Step.refl VmHost.Step.trans VmHost.handle_step (exec s req) _

/-- Replaying the log of a run takes the maps back to where the run started. -/
theorem maps_revert_runProgram :
    (revert CesServer.undo (runProgram exec s req).2.undoLog (runProgram exec s req).2.server).maps
      = s.maps := by
  obtain ⟨new, hlog, hundo⟩ := (runProgram_step exec s req).logged
  rw [CesServer.maps_revert, hlog]
  change revert LedgerMaps.undo (new ++ []) _ = _
  rw [List.append_nil]
  exact hundo

/-! ### The settlement of the caller -/

/-- The balance after the refund: a free budget gives nothing back, and the cap clamps. -/
def refundedBalance (res : VmResult) (balance : Int) : Int :=
  if req.freeBudget = false ∧ res.budgetUsed + vmPenalty res.error < req.budget then
    min balanceMax (balance + (req.budget - (res.budgetUsed + vmPenalty res.error)).toNat)
  else balance

/-- The gas burned past the budget that a refill granted, as far as the balance pays for it. -/
def refillPay (res : VmResult) (refilledTotal : UInt64) (balance : Int) : Int :=
  min (min ((res.budgetUsed.toNat : Int) - req.budget.toNat) refilledTotal.toNat) balance

/-- Paying for refilled gas bumps the nonce; an account whose whole balance it takes is gone. -/
def refillCharged (res : VmResult) (refilledTotal : UInt64) (acc : Account) : Option Account :=
  let pay := refillPay req res refilledTotal acc.getBalance
  if pay ≤ 0 then some acc
  else if acc.getBalance = pay then none
  else some { acc.setBalance (acc.getBalance - pay) with nonce := acc.nonce + 1 }

/-- The caller's cell after the settlement, in integers. -/
def settledCaller (res : VmResult) (refilledTotal : UInt64) (acc : Account) : Option Account :=
  refillCharged req res refilledTotal (acc.setBalance (refundedBalance req res acc.getBalance))

variable {exec s} (res : VmResult) (refilledTotal : UInt64)

theorem refundBudget_eq :
    refundBudget req res s = { s with accounts := (refundBudget req res s).accounts } := by
  unfold refundBudget
  dsimp only
  split_ifs <;> rfl

theorem chargeRefill_eq :
    chargeRefill req res refilledTotal s =
      { s with accounts := (chargeRefill req res refilledTotal s).accounts } := by
  unfold chargeRefill
  dsimp only
  split_ifs <;> rfl

theorem find_refundBudget (id : HashPrefix) :
    (refundBudget req res s).accounts.find id =
      if id = req.callerPrefix then
        (s.accounts.find id).map fun acc => acc.setBalance (refundedBalance req res acc.getBalance)
      else s.accounts.find id := by
  unfold refundBudget refundedBalance
  simp only [Bool.not_eq_true']
  split_ifs with hrefund hid hid
  · subst hid
    cases hfind : s.accounts.find req.callerPrefix with
    | none => simp [Accounts.credit_of_none hfind, hfind]
    | some acc => simp [Accounts.credit_eq hfind]
  · cases hfind : s.accounts.find req.callerPrefix with
    | none => simp [Accounts.credit_of_none hfind]
    | some acc => simp [Accounts.credit_eq hfind, hid]
  · simp
  · rfl

/-- The payment of the source, in integers. -/
theorem pay_toNat (balance : Int) (hhigh : balance ≤ balanceMax) (hover : req.budget < res.budgetUsed) :
    ((min (min (res.budgetUsed - req.budget) refilledTotal) (asUInt64 (max 0 balance))).toNat : Int) =
      max 0 (refillPay req res refilledTotal balance) := by
  have hle := UInt64.le_iff_toNat_le.mp (UInt64.le_of_lt hover)
  have hbal : (asUInt64 (max 0 balance)).toNat = max 0 balance := by
    rw [asUInt64_toNat_of_nonneg (le_max_left _ _) (by unfold balanceMax at hhigh; omega)]
  have hused := UInt64.toNat_sub_of_le _ _ (UInt64.le_of_lt hover)
  rw [toNat_min_uint64, toNat_min_uint64, hused]
  unfold refillPay
  omega

theorem chargeRefill_of_none (hnone : s.accounts.find req.callerPrefix = none) :
    (chargeRefill req res refilledTotal s).accounts = s.accounts := by
  unfold chargeRefill
  dsimp only
  split_ifs <;> simp [Accounts.debit, Accounts.debitStamped, hnone]

/-- Nothing is charged when the payment is zero, otherwise it is debited. -/
theorem chargeRefill_accounts {acc : Account} (hfind : s.accounts.find req.callerPrefix = some acc) :
    (refillPay req res refilledTotal acc.getBalance ≤ 0 ∧
      (chargeRefill req res refilledTotal s).accounts = s.accounts) ∨
    ∃ pay : UInt64, 0 < pay.toNat ∧ (pay.toNat : Int) = refillPay req res refilledTotal acc.getBalance ∧
      (chargeRefill req res refilledTotal s).accounts = s.accounts.debit req.callerPrefix pay := by
  have hbal := Accounts.balance_of_find hfind
  by_cases hover : 0 < refilledTotal ∧ req.budget < res.budgetUsed
  · have hnat := pay_toNat req res refilledTotal acc.getBalance acc.getBalance_upper hover.2
    have hmin := toNat_min_uint64 (min (res.budgetUsed - req.budget) refilledTotal)
      (asUInt64 (max 0 acc.getBalance))
    unfold chargeRefill
    rw [hbal]
    simp only [if_pos hover]
    simp only [UInt64.lt_iff_toNat_lt, UInt64.toNat_zero]
    generalize min (min (res.budgetUsed - req.budget) refilledTotal) (asUInt64 (max 0 acc.getBalance)) = pay
      at *
    split_ifs with hpay
    · exact .inr ⟨pay, hpay.2, by omega, rfl⟩
    · exact .inl ⟨by omega, rfl⟩
  · left
    unfold chargeRefill
    simp only [if_neg hover, and_true]
    rw [UInt64.lt_iff_toNat_lt, UInt64.lt_iff_toNat_lt, UInt64.toNat_zero] at hover
    unfold refillPay
    omega

theorem find_chargeRefill (id : HashPrefix) :
    (chargeRefill req res refilledTotal s).accounts.find id =
      if id = req.callerPrefix then (s.accounts.find id).bind (refillCharged req res refilledTotal)
      else s.accounts.find id := by
  cases hfind : s.accounts.find req.callerPrefix with
  | none =>
    rw [chargeRefill_of_none req res refilledTotal hfind]
    split_ifs with hid
    · rw [hid, hfind]
      rfl
    · rfl
  | some acc =>
    have hhigh := acc.getBalance_upper
    rcases chargeRefill_accounts req res refilledTotal hfind with ⟨hzero, hsame⟩ | ⟨pay, hpos, hpay, hdebit⟩
    · rw [hsame]
      split_ifs with hid
      · rw [hid, hfind, Option.bind_some, refillCharged, if_pos hzero]
      · rfl
    · have hle : (pay.toNat : Int) ≤ acc.getBalance := by
        rw [hpay]
        exact min_le_right _ _
      have hnew : int64 (acc.getBalance - asInt64 pay) = acc.getBalance - pay.toNat := by
        unfold balanceMax at hhigh
        rw [asInt64_of_lt (by omega)]
        exact int64_of_range (by omega) (by omega)
      rw [hdebit]
      simp only [Accounts.debit, Accounts.debitStamped, hfind, hnew]
      by_cases hgone : acc.getBalance - pay.toNat ≤ 0
      · rw [if_pos hgone, Accounts.find_drop]
        split_ifs with hid
        · rw [hid, hfind, Option.bind_some, refillCharged, ← hpay, if_neg (by omega), if_pos (by omega)]
        · rfl
      · rw [if_neg hgone, Accounts.find_put]
        split_ifs with hid
        · rw [hid, hfind, Option.bind_some, refillCharged, ← hpay, if_neg (by omega), if_neg (by omega)]
        · rfl

/-- The settlement touches the account store only. -/
theorem settle_rest (t : CesServer) :
    (chargeRefill req res refilledTotal (refundBudget req res t)).outward = t.outward ∧
      (chargeRefill req res refilledTotal (refundBudget req res t)).rpcPendingCount = t.rpcPendingCount ∧
      (chargeRefill req res refilledTotal (refundBudget req res t)).l2PendingCount = t.l2PendingCount := by
  rw [chargeRefill_eq, refundBudget_eq]
  exact ⟨rfl, rfl, rfl⟩

end

/-! ### A run that aborts -/

def abortCaller : Hash := ByteArr.ofList 32 (List.replicate 32 1)

/-- One account, holding 1000, whose owner is connected. -/
def abortServer : CesServer :=
  { CesServer.load .stock (ByteArr.zero 32)
      ((∅ : FMap HashPrefix Account).insert (getHashPrefix abortCaller) (Account.ofKey abortCaller 1000 0))
      ∅ ∅ with
    presence := (∅ : FMap HashPrefix SockAddr).insert (getHashPrefix abortCaller) [127, 0, 0, 1] }

def abortPayer : Hash := ByteArr.ofList 32 (List.replicate 32 2)

/-- The same owner with 50000 credits and a watch: `code` runs when the account is paid, on the free grant and up to
10000 refilled. -/
def watchedServer (code : Bytes) : CesServer :=
  { CesServer.load .stock (ByteArr.zero 32)
      ((∅ : FMap HashPrefix Account).insert (getHashPrefix abortCaller)
        { Account.ofKey abortCaller 50000 0 with aliasId := 1 })
      ∅
      ((∅ : FMap UInt32 Alias).insert 1 ⟨getHashPrefix abortCaller, ByteArr.zero 8, aliasOpInlineHookWatch,
        ByteArr.ofList 1002 ((ByteArr.ofList 994 code).bytes ++ leBytes 8 10000)⟩) with
    presence := (∅ : FMap HashPrefix SockAddr).insert (getHashPrefix abortCaller) [127, 0, 0, 1]
    inHook := true }

/-- What `fireAccountHook` runs there after a payment of 40000. -/
def watchRequest (code : Bytes) : VmRunRequest :=
  accountHookRequest (watchedServer code) abortCaller (ByteArr.ofList 994 code).bytes (ByteArr.zero 32)
    (getHashPrefix abortCaller) invokeHookXferVm abortPayer 40000 50000 10000

/-- `HOSTV refill 1 10000; HOSTV ownerTransfer 2 892 7; ABORT`: cell 892 holds the payer's key. -/
def refillAbortCode : Bytes := [46, 0x57, 0x41, 2, 0x10, 0x27, 46, 0x53, 0x42, 2, 0x7C, 0x03, 0x47, 43]

/-- `HOSTV sendClient 3 756 892 1; ABORT`: cell 756 holds the caller's key. -/
def pushAbortCode : Bytes := [46, 0x4F, 0x43, 2, 0xF4, 0x02, 2, 0x7C, 0x03, 0x41, 43]

/-! ### The ledger -/

section

variable {exec : CesServer → VmRunRequest → VmProgram} {s : CesServer} {req : VmRunRequest}

/-- An aborted run is a revert and a settlement. -/
theorem executeVmRun_of_abort (habort : (executeVmRun exec s req).1.vmError ≠ .ok) :
    (executeVmRun exec s req).2 =
      chargeRefill req (runProgram exec s req).1 (runProgram exec s req).2.refilledTotal
        (refundBudget req (runProgram exec s req).1
          (revert CesServer.undo (runProgram exec s req).2.undoLog (runProgram exec s req).2.server)) := by
  change (runProgram exec s req).1.error ≠ .ok at habort
  simp only [executeVmRun, settleRun, if_neg habort]

/-- After an aborted run the assets, the aliases, the queued runs and every account but the caller's are
what they were; the caller's account is settled. -/
theorem abort_restores_ledger (habort : (executeVmRun exec s req).1.vmError ≠ .ok) :
    (executeVmRun exec s req).2.assets = s.assets ∧
      (executeVmRun exec s req).2.aliases = s.aliases ∧
      (executeVmRun exec s req).2.scheduledRuns.runs = s.scheduledRuns.runs ∧
      ∀ id, (executeVmRun exec s req).2.accounts.find id =
        if id = req.callerPrefix then
          (s.accounts.find id).bind
            (settledCaller req (runProgram exec s req).1 (runProgram exec s req).2.refilledTotal)
        else s.accounts.find id := by
  have hmaps := maps_revert_runProgram exec s req
  rw [executeVmRun_of_abort habort]
  generalize revert CesServer.undo (runProgram exec s req).2.undoLog (runProgram exec s req).2.server = t
    at hmaps
  have hstore : t.accounts.find = s.accounts.find :=
    funext fun id => congrArg (fun m => m.accounts.lookup id) hmaps
  refine ⟨?_, ?_, ?_, fun id => ?_⟩
  · rw [chargeRefill_eq, refundBudget_eq]
    exact congrArg LedgerMaps.assets hmaps
  · rw [chargeRefill_eq, refundBudget_eq]
    exact congrArg LedgerMaps.aliases hmaps
  · rw [chargeRefill_eq, refundBudget_eq]
    exact congrArg LedgerMaps.runs hmaps
  · rw [find_chargeRefill, find_refundBudget, hstore]
    split_ifs
    · cases s.accounts.find id with
      | none => rfl
      | some acc => rfl
    · rfl

theorem abort_restores_ledger_refill :
    let r := executeVmRun bytecode (watchedServer refillAbortCode) (watchRequest refillAbortCode)
    r.1.vmError ≠ .ok ∧ r.2.aliases = (watchedServer refillAbortCode).aliases ∧
      r.2.scheduledRuns.runs = (watchedServer refillAbortCode).scheduledRuns.runs := by
  have habort : (executeVmRun bytecode (watchedServer refillAbortCode) (watchRequest refillAbortCode)).1.vmError ≠
    .ok := by
    decide +kernel
  have hrestored := abort_restores_ledger habort
  exact ⟨habort, hrestored.2.1, hrestored.2.2.1⟩

/-- The hook of the paid account refills its gas, tips the payer and aborts: the tip is taken back, the 1500 gas burned
past the free grant are paid for, and the payment bumps the nonce. -/
theorem aborted_refill_bumps_nonce :
    let s := watchedServer refillAbortCode
    let r := executeVmRun bytecode s (watchRequest refillAbortCode)
    r.1.vmError = .abort ∧ (watchRequest refillAbortCode).budget = 36000 ∧ r.1.budgetUsed = 37500 ∧
      (s.accounts.find (getHashPrefix abortCaller)).map (·.nonce) = some 0 ∧
      (r.2.accounts.find (getHashPrefix abortCaller)).map (·.nonce) = some 1 ∧
      r.2.accounts.balance (getHashPrefix abortCaller) = 48500 := by
  decide +kernel

/-! ### Outward effects -/

/-- An aborted run has had no effect outside the ledger exactly when none of its calls acted at once. -/
theorem abort_sends_nothing_iff (habort : (executeVmRun exec s req).1.vmError ≠ .ok) :
    ((executeVmRun exec s req).2.outward = s.outward ∧
      (executeVmRun exec s req).2.rpcPendingCount = s.rpcPendingCount ∧
      (executeVmRun exec s req).2.l2PendingCount = s.l2PendingCount) ↔
    (exec s req).Along VmHost.handle VmHost.Defers (.ofRequest s req) := by
  have hrest := settle_rest req (runProgram exec s req).1 (runProgram exec s req).2.refilledTotal
    (revert CesServer.undo (runProgram exec s req).2.undoLog (runProgram exec s req).2.server)
  have hrevert := CesServer.revert_rest (runProgram exec s req).2.undoLog (runProgram exec s req).2.server
  rw [executeVmRun_of_abort habort, hrest.1, hrest.2.1, hrest.2.2, hrevert.2.1, hrevert.2.2.1,
    hrevert.2.2.2]
  have hl2 : (runProgram exec s req).2.server.l2PendingCount = s.l2PendingCount :=
    (congrArg CesServer.l2PendingCount (runProgram_step exec s req).rest).trans rfl
  constructor
  · rintro ⟨hout, -, -⟩
    refine (Program.along_iff_measure (m := fun h : VmHost => h.server.outward.length)
      (fun c h hc => ?_) (fun c h hc => VmHost.handle_sends hc) _ _).mpr (congrArg List.length hout)
    rw [(VmHost.handle_silent hc).outward]
  · intro hdefers
    have hsilent := Program.run_rel_along VmHost.Silent.refl VmHost.Silent.trans
      (fun c h hc => VmHost.handle_silent hc) (exec s req) _ hdefers
    exact ⟨hsilent.outward, hsilent.rpcPendingCount, hl2⟩

theorem abort_sends_nothing_refill :
    let s := watchedServer refillAbortCode
    let req := watchRequest refillAbortCode
    (executeVmRun bytecode s req).1.vmError ≠ .ok ∧ (executeVmRun bytecode s req).2.outward = s.outward ∧
      (bytecode s req).Along VmHost.handle VmHost.Defers (.ofRequest s req) := by
  intro s req
  have habort : (executeVmRun bytecode s req).1.vmError ≠ .ok := by decide +kernel
  have hquiet : (executeVmRun bytecode s req).2.outward = s.outward ∧
      (executeVmRun bytecode s req).2.rpcPendingCount = s.rpcPendingCount ∧
      (executeVmRun bytecode s req).2.l2PendingCount = s.l2PendingCount := by decide +kernel
  refine ⟨habort, hquiet.1, ?_⟩
  rwa [← @abort_sends_nothing_iff bytecode s req habort]

/-- The hook pushes one byte of the payer's key to the connected owner and aborts: the push has left the server. -/
theorem aborted_push_is_sent :
    let s := watchedServer pushAbortCode
    let r := executeVmRun bytecode s (watchRequest pushAbortCode)
    r.1.vmError = .abort ∧ s.outward = [] ∧ r.2.outward = [.clientPush [127, 0, 0, 1] [2]] := by
  decide +kernel

end

end Ces
