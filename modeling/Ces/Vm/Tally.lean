import Ces.Vm.Scheduled
import Ces.Vm.Value

/-!
# VM runs and the credit tally

The VM host writes balances in memory and never tells the tally, on the ground that its moves are net-zero.
They are, as long as the payee exists and is not a pending payment: `ValueCall.TallySafe`. From a call
(`run_balanced`) this goes to the calls of a run (`runProgram_balanced`), to a run with its settlement
(`tallied_settleRun`) and to the hooks it causes (`tallied_executeVmRun`). An aborted run needs nothing: its
writes are gone and the tally never knew of them.
-/

namespace Ces

open Ces.Lib VmHost

/-! ### One call -/

namespace ValueCall

/-- What the call moves goes to an account that is there, or that the call creates, and that is not a
pending payment. -/
def TallySafe (c : ValueCall) (h : VmHost) : Prop :=
  ∀ payee amount, c.Accepted h payee amount →
    amount = 0 ∨ (0 ≤ h.balance payee ∧ (c.needsPayee = true → h.findAccount payee ≠ none))

end ValueCall

/-- The credits are what they were, and no balance turned negative. -/
structure VmHost.Balanced (h h' : VmHost) : Prop where
  credits : h'.credits = h.credits
  nonneg : ∀ id, 0 ≤ h.balance id → 0 ≤ h'.balance id

theorem VmHost.Balanced.refl (h : VmHost) : Balanced h h := ⟨rfl, fun _ hn => hn⟩

theorem VmHost.Balanced.trans {h h' h'' : VmHost} (h1 : Balanced h h') (h2 : Balanced h' h'') :
    Balanced h h'' :=
  ⟨h2.credits.trans h1.credits, fun id hn => h2.nonneg id (h1.nonneg id hn)⟩

theorem VmHost.SameBalances.balanced {h h' : VmHost} (hs : SameBalances h h') : Balanced h h' :=
  ⟨hs.credits, fun id hn => (hs.balance id).symm ▸ hn⟩

namespace ValueCall

/-- A move of nothing. -/
theorem balanced_of_zero {needs : Bool} {h h' : VmHost} {payer payee : HashPrefix}
    (hmoved : Moved needs h h' payer payee 0) : Balanced h h' := by
  obtain ⟨mid, ⟨-, rfl⟩ | ⟨hne, -⟩, htail⟩ := hmoved
  · rcases htail with ⟨-, -, hs⟩ | hw
    · exact hs.balanced
    · have hval : wrap48 (saturatingAddBalance (mid.balance payee) 0) = mid.balance payee := by
        have hhigh := mid.balance_upper payee
        rw [wrap48_credit_small (by simp; omega) (by decide) (mid.balance_lower payee)
          (by simpa using hhigh)]
        simp
      rw [hval] at hw
      refine ⟨by have := hw.credits; omega, fun id hn => ?_⟩
      rw [hw.balance]
      split_ifs with hid
      · rwa [← hid]
      · exact hn
  · exact absurd rfl hne

/-- A move to a non-negative account that ends up credited: exact on both sides. -/
theorem balanced_of_wrote {h mid h' : VmHost} {payer payee : HashPrefix} {amount : UInt64}
    (hd : Debited h mid payer amount)
    (hroom : ¬ (0 ≤ h.balance payee ∧ balanceMax - h.balance payee < amount.toNat))
    (hnonneg : 0 ≤ h.balance payee)
    (hw : Wrote mid h' payee (wrap48 (saturatingAddBalance (mid.balance payee) amount))) :
    Balanced h h' := by
  have hpayer := h.balance_upper payer
  have hsmall : amount.toNat < 2 ^ 63 := by unfold balanceMax at hroom; omega
  have hguard := hd.guard
  rw [asInt64_of_lt hsmall] at hguard
  have hdebit := wrap48_debit_small hsmall hd.guard hpayer
  have hmid := hd.wrote.credits
  have hmidpayee := hd.wrote.balance payee
  rw [hdebit] at hmid hmidpayee
  have hmidnonneg : 0 ≤ mid.balance payee := by
    rw [hmidpayee]
    split_ifs <;> omega
  have hcredit : wrap48 (saturatingAddBalance (mid.balance payee) amount) =
      mid.balance payee + amount.toNat := by
    have hfits : mid.balance payee + amount.toNat ≤ balanceMax := by
      rw [hmidpayee]
      split_ifs <;> omega
    exact wrap48_credit_small (by omega) hsmall (mid.balance_lower payee) hfits
  have hcredits := hw.credits
  rw [hcredit] at hcredits
  refine ⟨by omega, fun id hn => ?_⟩
  rw [hw.balance, hcredit]
  split_ifs with hid
  · omega
  · rw [hd.wrote.balance, hdebit]
    split_ifs with hid'
    · omega
    · exact hn

theorem run_balanced {c : ValueCall} {h : VmHost} (hsafe : c.TallySafe h) : Balanced h (c.run h) := by
  rcases c.run_cases h with ⟨hsame, -⟩ | ⟨payee, amount, hacc, hmoved⟩
  · exact hsame.balanced
  · rcases hsafe payee amount hacc with rfl | ⟨hnonneg, hpayee⟩
    · exact balanced_of_zero hmoved
    · by_cases hzero : amount = 0
      · subst hzero
        exact balanced_of_zero hmoved
      obtain ⟨mid, ⟨h0, -⟩ | ⟨-, hd⟩, ⟨hneeds, hmissing, -⟩ | hw⟩ := hmoved
      · exact absurd h0 hzero
      · exact absurd h0 hzero
      · exact absurd hmissing (hpayee hneeds)
      · refine balanced_of_wrote hd (fun hc => ?_) hnonneg hw
        exact (credit_refused_iff payee amount).mpr hc hacc.2.1

end ValueCall

/-- The value call behind a host call. -/
def HostCall.value? : HostCall → Option ValueCall
  | .transfer dest amount => some (.transfer dest amount)
  | .ownerTransfer dest amount => some (.ownerTransfer dest amount)
  | .deposit amount => some (.deposit amount)
  | .withdraw amount => some (.withdraw amount)
  | .buyAsset key maxPrice => some (.buyAsset key maxPrice)
  | .crossTransfer dest amount server => some (.crossTransfer dest amount server)
  | .l2call disc value blob followupKey followupBudget followupTag =>
    some (.l2call disc value blob followupKey followupBudget followupTag)
  | _ => none

/-- A call that is no value call, or a safe one. -/
def VmHost.TallySafe (c : HostCall) (h : VmHost) : Prop := ∀ v, c.value? = some v → v.TallySafe h

theorem VmHost.handle_balanced {c : HostCall} {h : VmHost} (hsafe : VmHost.TallySafe c h) :
    Balanced h (handle c h).2 := by
  cases hvalue : c.value? with
  | none =>
    have hc : c.movesValue = false := by
      cases c <;> first | rfl | cases hvalue
    exact (SameBalances.of_accounts (handle_inert hc).accounts).balanced
  | some v =>
    have hc : c = v.call := by
      cases c <;> cases hvalue <;> rfl
    subst hc
    exact ValueCall.run_balanced (hsafe v hvalue)

/-! ### One run -/

section

variable (exec : CesServer → VmRunRequest → VmProgram)

/-- A run that commits makes safe calls only, and a refund does not land on a pending payment. -/
structure RunClean (s : CesServer) (req : VmRunRequest) : Prop where
  calls : (runProgram exec s req).1.error = .ok →
    (exec s req).Along handle VmHost.TallySafe (.ofRequest s req)
  refund : req.freeBudget = true ∨ 0 ≤ s.accounts.balance req.callerPrefix

variable {exec} {s : CesServer} {req : VmRunRequest}

theorem runProgram_balanced (hsafe : (exec s req).Along handle VmHost.TallySafe (.ofRequest s req)) :
    Balanced (.ofRequest s req) (runProgram exec s req).2 :=
  Program.run_rel_along VmHost.Balanced.refl VmHost.Balanced.trans
    (fun _ _ hc => VmHost.handle_balanced hc) (exec s req) _ hsafe

/-- The accounts a run leaves for its settlement. -/
theorem settled_accounts (hclean : RunClean exec s req) (htally : s.accounts.Tallied) :
    let t := if (runProgram exec s req).1.error = .ok then (runProgram exec s req).2.commit
      else revert CesServer.undo (runProgram exec s req).2.undoLog (runProgram exec s req).2.server
    t.accounts.Tallied ∧
      (0 ≤ s.accounts.balance req.callerPrefix → 0 ≤ t.accounts.balance req.callerPrefix) := by
  intro t
  by_cases hok : (runProgram exec s req).1.error = .ok
  · have hbalanced := runProgram_balanced (hclean.calls hok)
    have htotal : (runProgram exec s req).2.server.accounts.totalCredits = s.accounts.totalCredits :=
      congrArg (fun t => t.accounts.totalCredits) (runProgram_step exec s req).rest
    have ht : t.accounts = (runProgram exec s req).2.server.accounts := by
      simp only [t, if_pos hok, VmHost.commit_accounts]
    rw [ht]
    refine ⟨?_, hbalanced.nonneg req.callerPrefix⟩
    have hcredits : (runProgram exec s req).2.server.accounts.credits = s.accounts.credits :=
      hbalanced.credits
    unfold Accounts.Tallied
    rw [htotal, hcredits]
    exact htally
  · have ht : t.accounts = s.accounts := by
      simp only [t, if_neg hok]
      exact accounts_revert_runProgram
    rw [ht]
    exact ⟨htally, id⟩

theorem tallied_refundBudget {t : CesServer} (res : VmResult) (htally : t.accounts.Tallied)
    (hrefund : req.freeBudget = true ∨ 0 ≤ t.accounts.balance req.callerPrefix) :
    (refundBudget req res t).accounts.Tallied := by
  unfold refundBudget
  dsimp only
  split_ifs with hpaid
  · rcases hrefund with hfree | hnonneg
    · simp [hfree] at hpaid
    · exact Accounts.tallied_credit htally (.inl hnonneg)
  · exact htally

theorem tallied_chargeRefill {t : CesServer} (res : VmResult) (refilledTotal : UInt64)
    (htally : t.accounts.Tallied) : (chargeRefill req res refilledTotal t).accounts.Tallied := by
  cases hfind : t.accounts.find req.callerPrefix with
  | none => rwa [chargeRefill_of_none req res refilledTotal hfind]
  | some acc =>
    have hhigh := acc.getBalance_upper
    rcases chargeRefill_accounts req res refilledTotal hfind with ⟨_, hsame⟩ | ⟨pay, _, hpay, hdebit⟩
    · rwa [hsame]
    · have hle : (pay.toNat : Int) ≤ acc.getBalance := by
        rw [hpay]
        exact min_le_right _ _
      rw [hdebit]
      unfold balanceMax at hhigh
      refine Accounts.tallied_debit htally (by omega) ?_
      rw [Accounts.balance_of_find hfind]
      omega

theorem tallied_settleRun (hclean : RunClean exec s req) (htally : s.accounts.Tallied) :
    (settleRun req (runProgram exec s req).1 (runProgram exec s req).2).accounts.Tallied := by
  obtain ⟨hsettled, hnonneg⟩ := settled_accounts hclean htally
  unfold settleRun
  exact tallied_chargeRefill _ _ (tallied_refundBudget _ hsettled (hclean.refund.imp_right hnonneg))

/-! ### Hooks -/

/-- The request of the hook an event fires, when there is one to run. -/
def hookRun (s : CesServer) (accountKey : Hash) (wantGate : Bool) (invokeKind : UInt64)
    (counterpartyKey : Hash) (amount : UInt64) : Option VmRunRequest :=
  match hookAlias s accountKey wantGate with
  | none => none
  | some (al, bal) =>
    match hookProgram s (getHashPrefix accountKey) al wantGate with
    | none => none
    | some (code, selfAssetKey, principal, ceiling) =>
      if s.inHook then none
      else
        some (accountHookRequest s accountKey code selfAssetKey principal invokeKind counterpartyKey amount
          bal ceiling)

/-- Firing a hook does nothing, or is a run under the hook flag. -/
theorem fireAccountHook_cases (s : CesServer) (accountKey : Hash) (wantGate : Bool) (invokeKind : UInt64)
    (counterpartyKey : Hash) (amount : UInt64) :
    (fireAccountHook exec s accountKey wantGate invokeKind counterpartyKey amount).2 = s ∨
    ∃ req, hookRun s accountKey wantGate invokeKind counterpartyKey amount = some req ∧
      (fireAccountHook exec s accountKey wantGate invokeKind counterpartyKey amount).2 =
        { (executeHookRun exec { s with inHook := true } req).2 with inHook := false } := by
  unfold fireAccountHook hookRun
  cases hookAlias s accountKey wantGate with
  | none => exact .inl rfl
  | some found =>
    obtain ⟨al, bal⟩ := found
    dsimp only
    cases hookProgram s (getHashPrefix accountKey) al wantGate with
    | none => exact .inl rfl
    | some program =>
      obtain ⟨code, selfAssetKey, principal, ceiling⟩ := program
      dsimp only
      unfold runAccountHook
      split_ifs
      · exact .inl rfl
      · exact .inr ⟨_, rfl, rfl⟩

variable (exec)

/-- The hook an event fires, if any, is a clean run. -/
def HookClean (s : CesServer) (accountKey : Hash) (wantGate : Bool) (invokeKind : UInt64)
    (counterpartyKey : Hash) (amount : UInt64) : Prop :=
  ∀ req, hookRun s accountKey wantGate invokeKind counterpartyKey amount = some req →
    RunClean exec { s with inHook := true } req

/-- The same for the watches of a committed run, each in the state its predecessors left. -/
def HooksClean (s : CesServer) : List DeferredHook → Prop
  | [] => True
  | h :: hooks =>
    HookClean exec s h.dest false invokeHookXferVm h.counterparty h.amount ∧
      HooksClean (fireAccountHook exec s h.dest false invokeHookXferVm h.counterparty h.amount).2 hooks

/-- A run, its settlement and its hooks. -/
structure VmRunClean (s : CesServer) (req : VmRunRequest) : Prop where
  run : RunClean exec s req
  hooks : (runProgram exec s req).1.error = .ok →
    HooksClean exec (settleRun req (runProgram exec s req).1 (runProgram exec s req).2)
      (runProgram exec s req).2.deferredHooks

variable {exec}

theorem tallied_fireAccountHook {accountKey counterpartyKey : Hash} {wantGate : Bool} {invokeKind : UInt64}
    {amount : UInt64} (hclean : HookClean exec s accountKey wantGate invokeKind counterpartyKey amount)
    (htally : s.accounts.Tallied) :
    (fireAccountHook exec s accountKey wantGate invokeKind counterpartyKey amount).2.accounts.Tallied := by
  rcases @fireAccountHook_cases exec s accountKey wantGate invokeKind counterpartyKey amount with
    hnone | ⟨req, hreq, hrun⟩
  · rwa [hnone]
  · rw [hrun]
    exact tallied_settleRun (hclean req hreq) htally

theorem tallied_fireDeferred {hooks : List DeferredHook} (hclean : HooksClean exec s hooks)
    (htally : s.accounts.Tallied) : (fireDeferred exec s hooks).accounts.Tallied := by
  unfold fireDeferred
  induction hooks generalizing s with
  | nil => exact htally
  | cons h hooks ih => exact ih hclean.2 (tallied_fireAccountHook hclean.1 htally)

theorem tallied_executeVmRun (hclean : VmRunClean exec s req) (htally : s.accounts.Tallied) :
    (executeVmRun exec s req).2.accounts.Tallied := by
  have hsettled := tallied_settleRun hclean.run htally
  unfold executeVmRun
  dsimp only
  split_ifs with hok
  · exact tallied_fireDeferred (hclean.hooks hok) hsettled
  · exact hsettled

/-! ### Queued runs -/

variable (exec) in
/-- A queued run whose budget is debited as an `int64_t` would debit it, and whose program runs clean. -/
structure ScheduledClean (s : CesServer) (run : ScheduledRun) : Prop where
  budget : run.prepaid = true ∨ run.budget.toNat < 2 ^ 63
  run : ∀ acc program, s.accounts.find run.callerPrefix = some acc → scheduledProgram s run = some program →
    VmRunClean exec (reserveBudget s run) (scheduledRequest s.cfg run (acc.getKey run.callerPrefix) program)

theorem tallied_executeScheduledRun {run : ScheduledRun} (hclean : ScheduledClean exec s run)
    (htally : s.accounts.Tallied) : (executeScheduledRun exec s run).2.accounts.Tallied := by
  unfold executeScheduledRun
  cases hfind : s.accounts.find run.callerPrefix with
  | none => exact htally
  | some acc =>
    dsimp only
    split_ifs with hrefused
    · exact htally
    · have hreserved : (reserveBudget s run).accounts.Tallied := by
        unfold reserveBudget
        cases hprepaid : run.prepaid with
        | true => exact htally
        | false =>
          have hsmall : run.budget.toNat < 2 ^ 63 := by
            rcases hclean.budget with h | h
            · rw [hprepaid] at h
              cases h
            · exact h
          have hcovered : ¬ acc.getBalance < asInt64 run.budget := fun h => hrefused ⟨hprepaid, h⟩
          rw [asInt64_of_lt hsmall] at hcovered
          refine Accounts.tallied_debit htally hsmall ?_
          rw [Accounts.balance_of_find hfind]
          omega
      have hsame : scheduledProgram (reserveBudget s run) run = scheduledProgram s run ∧
          (reserveBudget s run).cfg = s.cfg := by
        unfold reserveBudget
        split_ifs <;> exact ⟨rfl, rfl⟩
      unfold runScheduledProgram
      rw [hsame.1, hsame.2]
      cases hprogram : scheduledProgram s run with
      | none => exact hreserved
      | some program => exact tallied_executeVmRun (hclean.run acc program hfind hprogram) hreserved

end

end Ces
