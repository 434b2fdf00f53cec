import Ces.Ledger.Cells

/-!
# Mints, burns and direct debits

The writers that go to the account store without a signed request: the proof-of-work reward, `_brrInner` and
`_burnInner`, the debits and credits the L2 handlers ask for, and the daily reset of the server's own account.
-/

namespace Ces

open Ces.Lib

def maxPowDifficulty : Nat := 54
def powRewardBase : UInt64 := 1000

namespace Accounts

variable (a : Accounts)

/-- The reward of a solution. The difficulty is capped so that the shift cannot overflow. -/
def powReward (difficulty : Nat) : UInt64 :=
  UInt64.ofNat (2 ^ (min difficulty maxPowDifficulty - 1)) * powRewardBase

def capAmount (amount : UInt64) : UInt64 := min amount (asUInt64 balanceMax)

/-- `incomingProveWork`: credit the miner's account, or create it at the price of a slot. -/
def proveWork (maxAcc : Nat) (feeAccount : UInt64) (ckey : Hash) (difficulty : Nat) : Accounts :=
  let reward := powReward difficulty
  if difficulty < 1 then a
  else
    match a.find (getHashPrefix ckey) with
    | none =>
      if maxAcc ≤ a.store.size ∨ reward < feeAccount then a
      else a.createAccount (getHashPrefix ckey) (.ofKey ckey (asInt64 (capAmount (reward - feeAccount))) 0)
    | some acc => if acc.getBalance < 0 then a else a.credit (getHashPrefix ckey) reward

/-- `_brrInner`: credit out of nothing, at most the balance cap. -/
def brrInner (key : Hash) (amount : Int) : Accounts :=
  if amount ≤ 0 then a else a.creditOrCreate key (asUInt64 (min amount balanceMax))

/-- `_burnInner`: destroy up to `amount`. -/
def burnInner (key : Hash) (amount : Int) : Accounts :=
  match a.find (getHashPrefix key) with
  | none => a
  | some acc =>
    if 0 < min amount acc.getBalance then a.debit (getHashPrefix key) (asUInt64 (min amount acc.getBalance))
    else a

/-- `_walletSend`: pay out of the server's account. -/
def walletSend (serverKey destKey : Hash) (amount : UInt64) : Bool × Accounts :=
  match a.find (getHashPrefix serverKey) with
  | none => (false, a)
  | some acc =>
    if 0 < amount ∧ 0 ≤ acc.getBalance ∧ (amount.toNat : Int) ≤ acc.getBalance then
      (true, (a.burnInner serverKey (asInt64 amount)).brrInner destKey (asInt64 amount))
    else (false, a)

/-- `ServerLedgerTxn::signerSpend`: what is spent is burned, and a zero charge needs no account. -/
def signerSpend (signer : Hash) (amount : UInt64) (reqNonce : UInt32) (errFee : Int) : Rc × Accounts :=
  if amount = 0 then (.ok, a)
  else
    match a.validateSpend (getHashPrefix signer) amount 0 reqNonce errFee with
    | (.ok, _) => (.ok, a.debit (getHashPrefix signer) amount)
    | refused => refused

/-- `ServerLedgerTxn::debitAccount`. -/
def debitAccount (key : Hash) (amount : UInt64) : Bool × Accounts :=
  match a.find (getHashPrefix key) with
  | none => (false, a)
  | some acc =>
    if acc.getBalance < asInt64 amount then (false, a) else (true, a.debit (getHashPrefix key) amount)

/-- `_l2DebitProgramAccountSync`: the verdict with the balance it reports. -/
def debitProgramAccount (key : Hash) (amount : Int) : (Bool × Int) × Accounts :=
  match a.find (getHashPrefix key) with
  | none => ((false, 0), a)
  | some acc =>
    if acc.getBalance < amount then ((false, acc.getBalance), a)
    else ((true, int64 (acc.getBalance - amount)), a.debit (getHashPrefix key) (asUInt64 amount))

/-- `mailChargeSync`: burn the price of a mail. -/
def mailCharge (payer : Hash) (price : UInt64) : Bool × Accounts :=
  if price = 0 then (true, a)
  else
    match a.find (getHashPrefix payer) with
    | none => (false, a)
    | some acc =>
      if acc.getBalance < asInt64 price then (false, a) else (true, a.burnInner payer (asInt64 price))

def serverAccountTarget : Int := 2 ^ 46

/-- Write a cell behind the tally's back. -/
def setCell (id : HashPrefix) (acc : Account) : Accounts := { a with store := a.store.insert id acc }

/-- Erase one the same way. -/
def eraseCell (id : HashPrefix) : Accounts := { a with store := a.store.erase id }

/-- `topUpServerAccount`: force the server's own balance to the target. -/
def topUpServerAccount (serverKey : Hash) : Accounts :=
  let id := getHashPrefix serverKey
  match a.find id with
  | none => a.createAccount id (.ofKey serverKey serverAccountTarget 0)
  | some acc =>
    if acc.getBalance = serverAccountTarget then a
    else
      (a.setCell id (acc.setBalance serverAccountTarget)).adjustTotalCredits
        (serverAccountTarget - acc.getBalance)

/-! ### The tally -/

variable {a}

theorem tallied_proveWork (h : a.Tallied) (maxAcc : Nat) (feeAccount : UInt64) (ckey : Hash)
    (difficulty : Nat) : (a.proveWork maxAcc feeAccount ckey difficulty).Tallied := by
  unfold proveWork
  dsimp only
  by_cases hfree : difficulty < 1
  · rw [if_pos hfree]
    exact h
  rw [if_neg hfree]
  cases hfind : a.find (getHashPrefix ckey) with
  | none =>
    dsimp only
    split_ifs
    · exact h
    · exact tallied_createAccount h (le_of_eq (balance_of_none hfind))
  | some acc =>
    dsimp only
    split_ifs with hneg
    · exact h
    · refine tallied_credit h (.inl ?_)
      rw [balance_of_find hfind]
      omega

theorem tallied_brrInner {key : Hash} {amount : Int} (h : a.Tallied)
    (hclean : amount ≤ 0 ∨ 0 ≤ a.balance (getHashPrefix key)) : (a.brrInner key amount).Tallied := by
  unfold brrInner
  split_ifs with hnone
  · exact h
  · exact tallied_creditOrCreate h (.inl (hclean.resolve_left hnone))

/-- A burn takes no more than is there. -/
theorem burnInner_cases (a : Accounts) (key : Hash) (amount : Int) :
    a.burnInner key amount = a ∨
    ∃ total : UInt64, 0 < total.toNat ∧ (total.toNat : Int) = min amount (a.balance (getHashPrefix key)) ∧
      a.burnInner key amount = a.debit (getHashPrefix key) total := by
  have hupper := a.balance_upper (getHashPrefix key)
  unfold balanceMax at hupper
  unfold burnInner
  cases hfind : a.find (getHashPrefix key) with
  | none => exact .inl rfl
  | some acc =>
    rw [balance_of_find hfind] at hupper ⊢
    dsimp only
    split_ifs with hpos
    · have hcast : ((asUInt64 (min amount acc.getBalance)).toNat : Int) = min amount acc.getBalance :=
        asUInt64_toNat_of_nonneg (by omega) (by omega)
      exact .inr ⟨_, by omega, hcast, rfl⟩
    · exact .inl rfl

theorem tallied_burnInner (h : a.Tallied) (key : Hash) (amount : Int) : (a.burnInner key amount).Tallied := by
  have hupper := a.balance_upper (getHashPrefix key)
  unfold balanceMax at hupper
  rcases burnInner_cases a key amount with hsame | ⟨total, hpos, htotal, hdebit⟩
  · rwa [hsame]
  · rw [hdebit]
    exact tallied_debit h (by omega) (by omega)

theorem tallied_walletSend {serverKey destKey : Hash} {amount : UInt64} (h : a.Tallied)
    (hclean : 0 ≤ a.balance (getHashPrefix destKey)) : (a.walletSend serverKey destKey amount).2.Tallied := by
  have hupper := a.balance_upper (getHashPrefix serverKey)
  unfold balanceMax at hupper
  unfold walletSend
  cases hfind : a.find (getHashPrefix serverKey) with
  | none => exact h
  | some acc =>
    dsimp only
    split_ifs with hpays
    · generalize asInt64 amount = signedAmount
      refine tallied_brrInner (tallied_burnInner h _ _) (.inr ?_)
      rcases burnInner_cases a serverKey signedAmount with hsame | ⟨total, hpos, htotal, hdebit⟩
      · rwa [hsame]
      · have hcovered : (total.toNat : Int) ≤ a.balance (getHashPrefix serverKey) := by omega
        rw [hdebit, balance_debit (by omega) hcovered]
        split_ifs
        · omega
        · exact hclean
    · exact h

theorem tallied_signerSpend {signer : Hash} {amount : UInt64} {reqNonce : UInt32} {errFee : Int}
    (h : a.Tallied) (hfee : 0 ≤ errFee) (hfee64 : errFee < 2 ^ 63) :
    (a.signerSpend signer amount reqNonce errFee).2.Tallied := by
  unfold signerSpend
  split_ifs with hzero
  · exact h
  · rcases a.validateSpend_cases (getHashPrefix signer) amount 0 reqNonce errFee with
      ⟨rc, hrc, heq⟩ | ⟨rc, hrc, heq⟩ | ⟨heq, hcovers⟩
    · rw [heq]
      cases rc with
      | ok => exact absurd rfl hrc
      | _ => exact h
    · rw [heq]
      cases rc with
      | ok => exact absurd rfl hrc
      | _ => exact tallied_chargeError h hfee hfee64
    · rw [heq]
      have htotal := hcovers.total_lt
      exact tallied_debit h (by omega) hcovers.nonneg

theorem tallied_debitAccount {key : Hash} {amount : UInt64} (h : a.Tallied) (hclean : amount.toNat < 2 ^ 63) :
    (a.debitAccount key amount).2.Tallied := by
  unfold debitAccount
  cases hfind : a.find (getHashPrefix key) with
  | none => exact h
  | some acc =>
    dsimp only
    rw [asInt64_of_lt hclean]
    split_ifs with hpoor
    · exact h
    · refine tallied_debit h hclean ?_
      rw [balance_of_find hfind]
      omega

theorem tallied_debitProgramAccount {key : Hash} {amount : Int} (h : a.Tallied) (hclean : 0 ≤ amount)
    (hsmall : amount < 2 ^ 63) : (a.debitProgramAccount key amount).2.Tallied := by
  unfold debitProgramAccount
  cases hfind : a.find (getHashPrefix key) with
  | none => exact h
  | some acc =>
    dsimp only
    split_ifs with hpoor
    · exact h
    · have hcast := asUInt64_toNat_of_nonneg hclean (by omega)
      refine tallied_debit h (by omega) ?_
      rw [balance_of_find hfind]
      omega

theorem tallied_mailCharge (h : a.Tallied) (payer : Hash) (price : UInt64) :
    (a.mailCharge payer price).2.Tallied := by
  unfold mailCharge
  by_cases hzero : price = 0
  · rw [if_pos hzero]
    exact h
  rw [if_neg hzero]
  cases a.find (getHashPrefix payer) with
  | none => exact h
  | some acc =>
    dsimp only
    generalize asInt64 price = signedPrice
    split_ifs
    · exact h
    · exact tallied_burnInner h payer signedPrice

theorem credits_setCell (a : Accounts) (id : HashPrefix) (acc : Account) :
    (a.setCell id acc).credits = a.credits - max 0 (a.balance id) + max 0 acc.getBalance :=
  credits_put a id acc 0

theorem tallied_topUpServerAccount {serverKey : Hash} (h : a.Tallied)
    (hclean : 0 ≤ a.balance (getHashPrefix serverKey)) : (a.topUpServerAccount serverKey).Tallied := by
  unfold topUpServerAccount
  dsimp only
  cases hfind : a.find (getHashPrefix serverKey) with
  | none => exact tallied_createAccount h (le_of_eq (balance_of_none hfind))
  | some acc =>
    dsimp only
    rw [balance_of_find hfind] at hclean
    split_ifs with hthere
    · exact h
    · have hcredits := credits_setCell a (getHashPrefix serverKey) (acc.setBalance serverAccountTarget)
      have hstored : (acc.setBalance serverAccountTarget).getBalance = serverAccountTarget := by
        rw [Account.getBalance_setBalance]
        exact wrap48_of_range (by decide) (by decide)
      rw [hstored, balance_of_find hfind] at hcredits
      unfold Tallied adjustTotalCredits
      change int64 (a.totalCredits + _) = int64 (a.setCell _ _).credits
      rw [h, int64_add_int64, hcredits]
      unfold serverAccountTarget
      congr 1
      omega

end Accounts

end Ces
