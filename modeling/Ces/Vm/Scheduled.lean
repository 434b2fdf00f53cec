import Ces.Vm.Abort

/-!
# Scheduled runs

`executeScheduledRun` reserves the whole budget of a queued run from its origin and hands the run to
`executeVmRun`, which refunds what is left. A program that moves no value leaves every account alone
(`executeVmRun_of_inert`), so what such a run does to its origin is the debit followed by the refund.
The budget is compared and debited as an `int64_t` and refunded as a `uint64_t`: from `2 ^ 63` on the
debit is a credit, and `scheduled_no_mint_iff` says on which records this shows.
-/

namespace Ces

open Ces.Lib

def invokeScheduledAlias : UInt64 := 4

/-- The program of a queued run when it fires: boot asset, principal, code and kind of invocation. `none`
when the asset is gone, or the alias is gone or no longer a public program. -/
def scheduledProgram (s : CesServer) (run : ScheduledRun) : Option (Hash × HashPrefix × Bytes × UInt64) :=
  if run.aliasId ≠ 0 then
    match s.aliases.lookup run.aliasId with
    | none => none
    | some al =>
      if al.op ≠ aliasOpInlineProgram then none
      else
        some (ByteArr.zero 32, al.owner, al.content.bytes.take aliasInlineCodeBytes, invokeScheduledAlias)
  else
    match s.assets.lookup run.assetId with
    | none => none
    | some asset => some (run.assetId, asset.ownerId, asset.content.bytes, run.invokeKind)

/-- The request a queued run makes of the VM. The gas multiplier is the undiscounted one. -/
def scheduledRequest (cfg : CesConfig) (run : ScheduledRun) (callerKey : Hash)
    (program : Hash × HashPrefix × Bytes × UInt64) : VmRunRequest where
  callerPrefix := run.callerPrefix
  callerKey := callerKey
  selfAssetKey := program.1
  programOwnerPrefix := program.2.1
  code := program.2.2.1
  input := run.input
  budget := run.budget
  allowance := run.allowance
  gasMult := cfg.feeVmMult
  enableVerifySig := false
  freeBudget := false
  invokeKind := program.2.2.2
  refillCeiling := 0

/-- Take the whole budget up front. A prepaid run was debited when it was submitted. -/
def reserveBudget (s : CesServer) (run : ScheduledRun) : CesServer :=
  if run.prepaid then s else { s with accounts := s.accounts.debit run.callerPrefix run.budget }

section

variable (exec : CesServer → VmRunRequest → VmProgram)

/-- The part after the budget is reserved. A program that is gone costs its whole budget. -/
def runScheduledProgram (s : CesServer) (run : ScheduledRun) (callerKey : Hash) : CesServer :=
  match scheduledProgram s run with
  | none => s
  | some program => (executeVmRun exec s (scheduledRequest s.cfg run callerKey program)).2

/-- Whether the run was carried out, and the server after it. -/
def executeScheduledRun (s : CesServer) (run : ScheduledRun) : Bool × CesServer :=
  match s.accounts.find run.callerPrefix with
  | none => (false, s)
  | some origin =>
    if run.prepaid = false ∧ origin.getBalance < asInt64 run.budget then (false, s)
    else (true, runScheduledProgram exec (reserveBudget s run) run (origin.getKey run.callerPrefix))

end

/-! ### Programs that move no value -/

namespace VmHost

/-- No account, no pending hook and no gas grant was touched. The grant needs a ceiling. -/
structure Inert (h h' : VmHost) : Prop where
  accounts : h'.server.accounts = h.server.accounts
  deferredHooks : h'.deferredHooks = h.deferredHooks
  refillCeiling : h'.refillCeiling = h.refillCeiling
  refilledTotal : h.refillCeiling = 0 → h'.refilledTotal = h.refilledTotal

theorem Inert.refl (h : VmHost) : Inert h h := ⟨rfl, rfl, rfl, fun _ => rfl⟩

theorem Inert.trans {h h' h'' : VmHost} (h1 : Inert h h') (h2 : Inert h' h'') : Inert h h'' :=
  ⟨h2.accounts.trans h1.accounts, h2.deferredHooks.trans h1.deferredHooks,
    h2.refillCeiling.trans h1.refillCeiling,
    fun h0 => (h2.refilledTotal (h1.refillCeiling.trans h0)).trans (h1.refilledTotal h0)⟩

theorem Write.inert {h h' : VmHost} (hw : Write false h h') : Inert h h' := by
  cases hw with
  | refill total hceiling => exact ⟨rfl, rfl, rfl, fun h0 => absurd h0 hceiling⟩
  | _ => exact ⟨rfl, rfl, rfl, fun _ => rfl⟩

theorem Writes.inert {h h' : VmHost} (hw : Writes false h h') : Inert h h' := by
  induction hw with
  | refl => exact .refl h
  | tail _ hw ih => exact ih.trans hw.inert

theorem handle_inert {c : HostCall} {h : VmHost} (hc : c.movesValue = false) :
    Inert h (handle c h).2 := by
  rcases handle_cases c h with ⟨_, hwrites⟩ | ⟨_, _, hsent⟩
  · rw [hc] at hwrites
    exact hwrites.inert
  · obtain ⟨e, n, hserver⟩ := hsent.server
    rw [hsent.host, hserver]
    exact ⟨rfl, rfl, rfl, fun _ => rfl⟩

end VmHost

/-- Committing sends and posts; it does not touch an account. -/
theorem VmHost.commit_accounts (h : VmHost) : h.commit.accounts = h.server.accounts := by
  have hfold : ∀ {α : Type} (f : CesServer → α → CesServer) (_ : ∀ s x, (f s x).accounts = s.accounts)
      (xs : List α) (s : CesServer), (xs.foldl f s).accounts = s.accounts := by
    intro α f hf xs
    induction xs with
    | nil => exact fun s => rfl
    | cons x xs ih => exact fun s => (ih (f s x)).trans (hf s x)
  have hsettle : ∀ (s : CesServer) (cx : DeferredCrossXfer), (s.settle cx).accounts = s.accounts := by
    intro s cx
    unfold CesServer.settle
    cases s.settlementLoad cx.server cx.peerKey <;> rfl
  exact (hfold CesServer.postL2Call (fun _ _ => rfl) _ _).trans
    ((hfold CesServer.settle hsettle _ _).trans (hfold CesServer.sendApplication (fun _ _ => rfl) _ _))

section

variable {exec : CesServer → VmRunRequest → VmProgram} {s : CesServer} {req : VmRunRequest}

theorem runProgram_inert (hcalls : (exec s req).Calls fun c => c.movesValue = false) :
    VmHost.Inert (.ofRequest s req) (runProgram exec s req).2 := by
  have hstep : ∀ (c : HostCall) (h : VmHost), c.movesValue = false → VmHost.Inert h (VmHost.handle c h).2 :=
    fun c h hc => VmHost.handle_inert hc
  exact Program.run_rel_of_calls VmHost.Inert.refl VmHost.Inert.trans hstep (exec s req) _ hcalls

/-- Reverting gives back the account store, tally included. -/
theorem accounts_revert_runProgram :
    (revert CesServer.undo (runProgram exec s req).2.undoLog (runProgram exec s req).2.server).accounts
      = s.accounts := by
  have hstore := congrArg LedgerMaps.accounts (maps_revert_runProgram exec s req)
  have htotal := (CesServer.revert_rest (runProgram exec s req).2.undoLog
    (runProgram exec s req).2.server).1
  have hkept := congrArg (fun t => t.accounts.totalCredits) (runProgram_step exec s req).rest
  exact Accounts.ext hstore (htotal.trans hkept)

theorem refundBudget_accounts_congr {t : CesServer} (res : VmResult) (h : t.accounts = s.accounts) :
    (refundBudget req res t).accounts = (refundBudget req res s).accounts := by
  unfold refundBudget
  dsimp only
  split_ifs
  · rw [h]
  · exact h

/-- A run that moves no value and may not refill leaves its refund behind and nothing else. -/
theorem executeVmRun_of_inert (hcalls : (exec s req).Calls fun c => c.movesValue = false)
    (hceiling : req.refillCeiling = 0) :
    (executeVmRun exec s req).2.accounts = (refundBudget req (runProgram exec s req).1 s).accounts := by
  have hinert := runProgram_inert hcalls
  have hnorefill : (runProgram exec s req).2.refilledTotal = 0 := hinert.refilledTotal hceiling
  have hsettled : (settleRun req (runProgram exec s req).1 (runProgram exec s req).2).accounts =
      (refundBudget req (runProgram exec s req).1 s).accounts := by
    unfold settleRun chargeRefill
    rw [hnorefill]
    simp only [UInt64.lt_irrefl, false_and, if_false]
    apply refundBudget_accounts_congr
    split_ifs
    · rw [VmHost.commit_accounts]
      exact hinert.accounts
    · exact accounts_revert_runProgram
  have hhooks : (runProgram exec s req).2.deferredHooks = [] := hinert.deferredHooks
  unfold executeVmRun
  simp only [hhooks, fireDeferred, List.foldl_nil, ite_self]
  exact hsettled

end

/-! ### The origin of a scheduled run -/

/-- The run leaves its origin no richer, and creates no credits. -/
def ScheduledNoMint (exec : CesServer → VmRunRequest → VmProgram) (s : CesServer) (run : ScheduledRun) :
    Prop :=
  (executeScheduledRun exec s run).2.accounts.balance run.callerPrefix ≤ s.accounts.balance run.callerPrefix ∧
    (executeScheduledRun exec s run).2.accounts.credits ≤ s.accounts.credits

/-- What the debit of the budget leaves, before it is stored in 48 bits. -/
def budgetLeft (s : CesServer) (run : ScheduledRun) : Int :=
  int64 (s.accounts.balance run.callerPrefix - asInt64 run.budget)

/-- The records that mint nothing: the origin is missing or refused, the budget is an `int64_t`, the origin
is full already, the debit overflows and erases it, or the program is gone and the debit did not raise the
stored balance. -/
def MintFree (s : CesServer) (run : ScheduledRun) : Prop :=
  s.accounts.find run.callerPrefix = none ∨
    s.accounts.balance run.callerPrefix < asInt64 run.budget ∨
    run.budget.toNat < 2 ^ 63 ∨
    s.accounts.balance run.callerPrefix = balanceMax ∨
    (2 ^ 63 ≤ run.budget.toNat ∧
      (run.budget.toNat : Int) ≤ 2 ^ 63 + s.accounts.balance run.callerPrefix) ∨
    (scheduledProgram s run = none ∧ 0 < budgetLeft s run ∧
      wrap48 (budgetLeft s run) ≤ s.accounts.balance run.callerPrefix)

section

variable {exec : CesServer → VmRunRequest → VmProgram} {s : CesServer} {run : ScheduledRun}

theorem wrap48_refundedBalance (req : VmRunRequest) (res : VmResult) (acc : Account) :
    wrap48 (refundedBalance req res acc.getBalance) = refundedBalance req res acc.getBalance := by
  unfold refundedBalance
  split_ifs
  · exact Accounts.wrap48_credit acc _
  · exact wrap48_of_range acc.getBalance_lower acc.getBalance_upper

theorem balance_refundBudget (req : VmRunRequest) (res : VmResult) {caller : Option Account}
    (hcaller : s.accounts.find req.callerPrefix = caller) :
    (refundBudget req res s).accounts.balance req.callerPrefix =
      caller.elim 0 fun acc => refundedBalance req res acc.getBalance := by
  unfold Accounts.balance
  rw [find_refundBudget, if_pos rfl, hcaller]
  cases caller with
  | none => rfl
  | some acc => exact wrap48_refundedBalance req res acc

theorem credits_refundBudget (req : VmRunRequest) (res : VmResult) :
    (refundBudget req res s).accounts.credits =
      s.accounts.credits - max 0 (s.accounts.balance req.callerPrefix) +
        max 0 ((refundBudget req res s).accounts.balance req.callerPrefix) := by
  unfold refundBudget
  dsimp only
  split_ifs
  · exact Accounts.credits_credit _
  · omega

theorem executeScheduledRun_refused (hprepaid : run.prepaid = false)
    (hrefused : s.accounts.find run.callerPrefix = none ∨
      s.accounts.balance run.callerPrefix < asInt64 run.budget) :
    (executeScheduledRun exec s run).2 = s := by
  unfold executeScheduledRun
  cases hfind : s.accounts.find run.callerPrefix with
  | none => rfl
  | some acc =>
    rw [hfind, Accounts.balance_of_find hfind] at hrefused
    rcases hrefused with hnone | hrefused
    · cases hnone
    · simp only [hprepaid, hrefused, and_self, if_true]

section covered

variable {acc : Account} (hinert : ∀ t req, (exec t req).Calls fun c => c.movesValue = false)
  (hprepaid : run.prepaid = false) (hfind : s.accounts.find run.callerPrefix = some acc)
  (hcovered : ¬ s.accounts.balance run.callerPrefix < asInt64 run.budget)
include hinert hprepaid hfind hcovered

/-- A covered run is the debit of its budget, followed by the refund when the program is there. -/
theorem executeScheduledRun_covered :
    (scheduledProgram s run = none ∧
      (executeScheduledRun exec s run).2.accounts = (reserveBudget s run).accounts) ∨
    ∃ program, scheduledProgram s run = some program ∧
      (executeScheduledRun exec s run).2.accounts =
        (refundBudget (scheduledRequest s.cfg run (acc.getKey run.callerPrefix) program)
          (runProgram exec (reserveBudget s run)
            (scheduledRequest s.cfg run (acc.getKey run.callerPrefix) program)).1
          (reserveBudget s run)).accounts := by
  have hrun : (executeScheduledRun exec s run).2 =
      runScheduledProgram exec (reserveBudget s run) run (acc.getKey run.callerPrefix) := by
    rw [Accounts.balance_of_find hfind] at hcovered
    unfold executeScheduledRun
    simp only [hfind, hcovered, and_false, if_false]
  obtain ⟨hprogram, hcfg⟩ : scheduledProgram (reserveBudget s run) run = scheduledProgram s run ∧
      (reserveBudget s run).cfg = s.cfg := by
    unfold reserveBudget
    rw [hprepaid]
    exact ⟨rfl, rfl⟩
  rw [hrun]
  unfold runScheduledProgram
  rw [hprogram, hcfg]
  cases scheduledProgram s run with
  | none => exact .inl ⟨rfl, rfl⟩
  | some program => exact .inr ⟨program, rfl, executeVmRun_of_inert (hinert _ _) rfl⟩

/-- The origin's balance after a covered run. -/
theorem balance_executeScheduledRun :
    (budgetLeft s run ≤ 0 ∧ (executeScheduledRun exec s run).2.accounts.balance run.callerPrefix = 0) ∨
    (0 < budgetLeft s run ∧ scheduledProgram s run = none ∧
      (executeScheduledRun exec s run).2.accounts.balance run.callerPrefix = wrap48 (budgetLeft s run)) ∨
    (0 < budgetLeft s run ∧ ∃ program, scheduledProgram s run = some program ∧
      (executeScheduledRun exec s run).2.accounts.balance run.callerPrefix =
        refundedBalance (scheduledRequest s.cfg run (acc.getKey run.callerPrefix) program)
          (runProgram exec (reserveBudget s run)
            (scheduledRequest s.cfg run (acc.getKey run.callerPrefix) program)).1
          (wrap48 (budgetLeft s run))) := by
  have hreserved : (reserveBudget s run).accounts.find run.callerPrefix =
      if budgetLeft s run ≤ 0 then none
      else some { acc.setBalance (budgetLeft s run) with nonce := acc.nonce + 1 } := by
    have hdebit := Accounts.find_debit hfind run.budget run.callerPrefix
    rw [if_pos rfl, ← Accounts.balance_of_find hfind] at hdebit
    unfold reserveBudget
    rw [hprepaid]
    exact hdebit
  by_cases hleft : budgetLeft s run ≤ 0
  · rw [if_pos hleft] at hreserved
    refine .inl ⟨hleft, ?_⟩
    rcases executeScheduledRun_covered hinert hprepaid hfind hcovered with ⟨_, heq⟩ | ⟨program, _, heq⟩
    · rw [heq]
      exact Accounts.balance_of_none hreserved
    · rw [heq]
      exact balance_refundBudget (scheduledRequest s.cfg run (acc.getKey run.callerPrefix) program) _
        hreserved
  · rw [if_neg hleft] at hreserved
    refine .inr ?_
    rcases executeScheduledRun_covered hinert hprepaid hfind hcovered with ⟨hnone, heq⟩ | ⟨program, hsome, heq⟩
    · refine .inl ⟨by omega, hnone, ?_⟩
      rw [heq]
      exact Accounts.balance_of_find hreserved
    · refine .inr ⟨by omega, program, hsome, ?_⟩
      rw [heq]
      exact balance_refundBudget (scheduledRequest s.cfg run (acc.getKey run.callerPrefix) program) _
        hreserved

/-- The run moves the credits by what it does to the origin. -/
theorem credits_executeScheduledRun :
    (executeScheduledRun exec s run).2.accounts.credits =
      s.accounts.credits - max 0 (s.accounts.balance run.callerPrefix) +
        max 0 ((executeScheduledRun exec s run).2.accounts.balance run.callerPrefix) := by
  have hreserve : (reserveBudget s run).accounts = s.accounts.debit run.callerPrefix run.budget := by
    unfold reserveBudget
    rw [hprepaid]
    rfl
  have hdebit := @Accounts.credits_debit s.accounts run.callerPrefix run.budget
  rcases executeScheduledRun_covered hinert hprepaid hfind hcovered with ⟨_, heq⟩ | ⟨program, _, heq⟩
  · rw [heq, hreserve]
    exact hdebit
  · have hrefund := @credits_refundBudget (reserveBudget s run)
      (scheduledRequest s.cfg run (acc.getKey run.callerPrefix) program)
      (runProgram exec (reserveBudget s run)
        (scheduledRequest s.cfg run (acc.getKey run.callerPrefix) program)).1
    rw [← heq, hreserve] at hrefund
    change _ = _ - max 0 ((s.accounts.debit run.callerPrefix run.budget).balance run.callerPrefix) + _
      at hrefund
    rw [hrefund]
    change _ - _ + max 0 ((executeScheduledRun exec s run).2.accounts.balance run.callerPrefix) = _
    omega

end covered

theorem noMint_iff_balance (hcredits : (executeScheduledRun exec s run).2.accounts.credits =
      s.accounts.credits - max 0 (s.accounts.balance run.callerPrefix) +
        max 0 ((executeScheduledRun exec s run).2.accounts.balance run.callerPrefix)) :
    ScheduledNoMint exec s run ↔
      (executeScheduledRun exec s run).2.accounts.balance run.callerPrefix ≤
        s.accounts.balance run.callerPrefix := by
  unfold ScheduledNoMint
  rw [hcredits]
  omega

/-- A budget that fits `int64_t` and was covered is debited exactly. -/
theorem budgetLeft_of_small (hsmall : run.budget.toNat < 2 ^ 63)
    (hcovered : ¬ s.accounts.balance run.callerPrefix < asInt64 run.budget) :
    budgetLeft s run = s.accounts.balance run.callerPrefix - run.budget.toNat ∧ 0 ≤ budgetLeft s run := by
  have hupper := s.accounts.balance_upper run.callerPrefix
  unfold balanceMax at hupper
  rw [asInt64_of_lt hsmall] at hcovered
  unfold budgetLeft
  rw [asInt64_of_lt hsmall, int64_of_range (by omega) (by omega)]
  omega

/-- From `2 ^ 63` on the debit adds the complement of the budget. -/
theorem budgetLeft_of_large (hlarge : 2 ^ 63 ≤ run.budget.toNat) :
    budgetLeft s run = int64 (s.accounts.balance run.callerPrefix + (2 ^ 64 - run.budget.toNat)) := by
  unfold budgetLeft
  rw [asInt64_of_ge hlarge]
  congr 1
  omega

/-- A refund of a budget that was debited exactly stays within what was there. -/
theorem refundedBalance_le (req : VmRunRequest) (res : VmResult) (balance : Int) :
    refundedBalance req res balance ≤ balance + req.budget.toNat := by
  unfold refundedBalance
  split_ifs with hrefund
  · have hle := UInt64.toNat_sub_of_le _ _ (UInt64.le_of_lt hrefund.2)
    omega
  · omega

/-- The interpreter whose programs end at once, for free. -/
def idleExec (_ : CesServer) (_ : VmRunRequest) : VmProgram := .done ⟨.ok, 0, []⟩

theorem idleExec_inert (t : CesServer) (req : VmRunRequest) :
    (idleExec t req).Calls fun c => c.movesValue = false := trivial

/-- A refund of `2 ^ 63` or more fills the account. -/
theorem refundedBalance_idle (req : VmRunRequest) (hpaid : req.freeBudget = false)
    (hlarge : 2 ^ 63 ≤ req.budget.toNat) (v : Int) :
    refundedBalance req ⟨.ok, 0, []⟩ (wrap48 v) = balanceMax := by
  have hlow := wrap48_lower v
  have hspent : (0 : UInt64) + vmPenalty .ok = 0 := rfl
  have hpos : (0 : UInt64) < req.budget := by
    rw [UInt64.lt_iff_toNat_lt, UInt64.toNat_zero]
    omega
  unfold refundedBalance
  rw [hspent, if_pos ⟨hpaid, hpos⟩, UInt64.sub_zero]
  unfold balanceMin balanceMax at *
  omega

theorem mintFree_of_idle (hprepaid : run.prepaid = false) (hidle : ScheduledNoMint idleExec s run) :
    MintFree s run := by
  cases hfind : s.accounts.find run.callerPrefix with
  | none => exact .inl hfind
  | some acc =>
    by_cases hcovered : s.accounts.balance run.callerPrefix < asInt64 run.budget
    · exact .inr (.inl hcovered)
    by_cases hsmall : run.budget.toNat < 2 ^ 63
    · exact .inr (.inr (.inl hsmall))
    have hlarge : 2 ^ 63 ≤ run.budget.toNat := by omega
    have hlt := run.budget.toNat_lt
    have hlower := s.accounts.balance_lower run.callerPrefix
    have hupper := s.accounts.balance_upper run.callerPrefix
    have hbalance := hidle.1
    refine .inr (.inr (.inr ?_))
    rcases balance_executeScheduledRun idleExec_inert hprepaid hfind hcovered with
      ⟨hleft, hzero⟩ | ⟨hleft, hnone, hstored⟩ | ⟨hleft, program, _, hfull⟩
    · -- the debit erased the account, so it overflowed
      rw [budgetLeft_of_large hlarge] at hleft
      rw [hzero] at hbalance
      refine .inr (.inl ⟨hlarge, ?_⟩)
      by_contra hfits
      rw [int64_of_range (by omega) (by unfold balanceMax at hupper; omega)] at hleft
      omega
    · rw [hstored] at hbalance
      exact .inr (.inr ⟨hnone, hleft, hbalance⟩)
    · left
      have hmax := refundedBalance_idle
        (scheduledRequest s.cfg run (acc.getKey run.callerPrefix) program) rfl hlarge (budgetLeft s run)
      rw [hfull] at hbalance
      change refundedBalance _ ⟨.ok, 0, []⟩ _ ≤ _ at hbalance
      rw [hmax] at hbalance
      omega

theorem balance_le_of_mintFree (hinert : ∀ t req, (exec t req).Calls fun c => c.movesValue = false)
    (hprepaid : run.prepaid = false) {acc : Account} (hfind : s.accounts.find run.callerPrefix = some acc)
    (hcovered : ¬ s.accounts.balance run.callerPrefix < asInt64 run.budget) (hfree : MintFree s run) :
    (executeScheduledRun exec s run).2.accounts.balance run.callerPrefix ≤
      s.accounts.balance run.callerPrefix := by
  have houtcome := balance_executeScheduledRun hinert hprepaid hfind hcovered
  rcases hfree with hnone | hrefused | hsmall | hfull | ⟨hlarge, hedge⟩ | ⟨hgone, hpos, hle⟩
  · rw [hfind] at hnone
    cases hnone
  · exact absurd hrefused hcovered
  · obtain ⟨hleft, hnonneg⟩ := budgetLeft_of_small hsmall hcovered
    have hupper := s.accounts.balance_upper run.callerPrefix
    have hstored : wrap48 (budgetLeft s run) = budgetLeft s run :=
      wrap48_of_range (by unfold balanceMin; omega) (by omega)
    rw [hstored] at houtcome
    rcases houtcome with ⟨_, hzero⟩ | ⟨_, _, hkept⟩ | ⟨_, program, _, hrefund⟩
    · omega
    · omega
    · have hbound := refundedBalance_le
        (scheduledRequest s.cfg run (acc.getKey run.callerPrefix) program)
        (runProgram exec (reserveBudget s run)
          (scheduledRequest s.cfg run (acc.getKey run.callerPrefix) program)).1 (budgetLeft s run)
      change _ ≤ _ + (run.budget.toNat : Int) at hbound
      omega
  · rw [hfull]
    exact Accounts.balance_upper _ _
  · have hupper := s.accounts.balance_upper run.callerPrefix
    have hleft : budgetLeft s run ≤ 0 := by
      rw [budgetLeft_of_large hlarge]
      have hlt := run.budget.toNat_lt
      unfold balanceMax at hupper
      unfold int64 signed
      omega
    rcases houtcome with ⟨_, hzero⟩ | ⟨hpos, _⟩ | ⟨hpos, _⟩
    · omega
    · omega
    · omega
  · rcases houtcome with ⟨hleft, _⟩ | ⟨_, _, hkept⟩ | ⟨_, program, hsome, _⟩
    · omega
    · omega
    · rw [hgone] at hsome
      cases hsome

/-- An unpaid queued run mints under no program that moves no value exactly when its record is mint-free. -/
theorem scheduled_no_mint_iff (hprepaid : run.prepaid = false) :
    (∀ exec : CesServer → VmRunRequest → VmProgram,
      (∀ t req, (exec t req).Calls fun c => c.movesValue = false) → ScheduledNoMint exec s run) ↔
    MintFree s run := by
  constructor
  · intro hall
    exact mintFree_of_idle hprepaid (hall idleExec idleExec_inert)
  · intro hfree exec hinert
    cases hfind : s.accounts.find run.callerPrefix with
    | none =>
      unfold ScheduledNoMint
      rw [executeScheduledRun_refused hprepaid (.inl hfind)]
      exact ⟨le_rfl, le_rfl⟩
    | some acc =>
      by_cases hcovered : s.accounts.balance run.callerPrefix < asInt64 run.budget
      · unfold ScheduledNoMint
        rw [executeScheduledRun_refused hprepaid (.inr hcovered)]
        exact ⟨le_rfl, le_rfl⟩
      · rw [noMint_iff_balance (credits_executeScheduledRun hinert hprepaid hfind hcovered)]
        exact balance_le_of_mintFree hinert hprepaid hfind hcovered hfree

/-- A thousand credits, and a stored program. -/
def scheduledServer : CesServer :=
  { abortServer with
    assets := (∅ : FMap Hash Asset).insert abortCaller ⟨getHashPrefix abortCaller, ByteArr.zero 210, 1, 0⟩ }

def scheduledRecord (budget : UInt64) : ScheduledRun where
  callerPrefix := getHashPrefix abortCaller
  assetId := abortCaller
  budget := budget
  allowance := 0
  input := []
  prepaid := false
  aliasId := 0
  invokeKind := VmHost.invokeScheduled

theorem scheduled_no_mint_small :
    ScheduledNoMint idleExec scheduledServer (scheduledRecord 400) :=
  (scheduled_no_mint_iff rfl).mpr (.inr (.inr (.inl (by decide)))) idleExec idleExec_inert

/-- A budget of `2 ^ 64 - 5` passes the comparison as `-5`; its refund fills the account. -/
theorem scheduled_run_mints :
    scheduledServer.accounts.balance (getHashPrefix abortCaller) = 1000 ∧
      (executeScheduledRun idleExec scheduledServer (scheduledRecord 0xFFFFFFFFFFFFFFFB)).2.accounts.balance
        (getHashPrefix abortCaller) = balanceMax ∧
      scheduledServer.accounts.credits = 1000 ∧
      (executeScheduledRun idleExec scheduledServer (scheduledRecord 0xFFFFFFFFFFFFFFFB)).2.accounts.credits =
        balanceMax := by
  decide

end

end Ces
