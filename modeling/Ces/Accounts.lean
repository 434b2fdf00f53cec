import Ces.Types

/-!
# The account store

`Accounts` is the store with its running tally `totalCredits`, an `int64_t` the methods adjust one
write at a time. The methods of `ActiveAccount` are functions of the store and the account's id; each
is one `put` or one `drop`, so that what a method does to a balance, to the sum of positive balances
(`credits`) and to the tally follows from the two lemmas about those writes.

`Tallied` says that the tally is the sum of the positive balances, as far as 64 bits can hold it.
-/

namespace Ces

open Ces.Lib

@[ext] structure Accounts where
  store : FMap HashPrefix Account
  totalCredits : Int

/-- What an account adds to the circulating credits. -/
def Account.positive (acc : Account) : Int := max 0 acc.getBalance

namespace Accounts

variable (a : Accounts) (id : HashPrefix)

def find : Option Account := a.store.lookup id

/-- `ActiveAccount::balance`: zero for a missing account. -/
def balance : Int := (a.find id).elim 0 Account.getBalance

def nonce : UInt32 := (a.find id).elim 0 (·.nonce)

/-- The sum of the positive balances. -/
def credits : Int := a.store.sumOver Account.positive

/-- The constructor: the tally of a loaded store, summed in `int64_t`. -/
def load (store : FMap HashPrefix Account) : Accounts :=
  ⟨store, int64 (store.sumOver Account.positive)⟩

/-- The tally holds the sum of the positive balances, modulo 64 bits. -/
def Tallied : Prop := a.totalCredits = int64 a.credits

/-- Store `acc` at `id` and adjust the tally. -/
def put (acc : Account) (delta : Int) : Accounts :=
  ⟨a.store.insert id acc, int64 (a.totalCredits + delta)⟩

/-- Erase `id` and adjust the tally. -/
def drop (delta : Int) : Accounts := ⟨a.store.erase id, int64 (a.totalCredits + delta)⟩

/-! ### Methods -/

def createAccount (acc : Account) : Accounts :=
  a.put id acc (if 0 < acc.getBalance then acc.getBalance else 0)

/-- `debit` and `debitTransfer`: take `total`, erase an account that reaches zero, otherwise bump the
nonce and apply the receipt `stamp`. -/
def debitStamped (stamp : Account → Account) (total : UInt64) : Accounts :=
  match a.find id with
  | none => a
  | some acc =>
    let newBal := int64 (acc.getBalance - asInt64 total)
    if newBal ≤ 0 then a.drop id (-max 0 acc.getBalance)
    else a.put id (stamp { acc.setBalance newBal with nonce := acc.nonce + 1 }) (-asInt64 total)

def debit (total : UInt64) : Accounts := a.debitStamped id (fun acc => acc) total

/-- The receipt of an outgoing transfer. -/
def xferStamp (destId : HashPrefix) (xferAmount : UInt64) (time : UInt32) (acc : Account) : Account :=
  { acc with
    lastXferDest := destId
    lastXferAmount := UInt64.ofNat (xferAmount.toNat % 2 ^ 48)
    lastXferTime := time }

def debitTransfer (total : UInt64) (destId : HashPrefix) (xferAmount : UInt64) (time : UInt32) :
    Accounts :=
  a.debitStamped id (xferStamp destId xferAmount time) total

def credit (amount : UInt64) : Accounts :=
  match a.find id with
  | none => a
  | some acc =>
    let current := acc.getBalance
    let newBal :=
      if amount ≤ asUInt64 balanceMax - asUInt64 current then int64 (current + asInt64 amount)
      else balanceMax
    a.put id (acc.setBalance newBal) (newBal - current)

def settlePayment (amount : UInt64) : Accounts :=
  match a.find id with
  | none => a
  | some acc => a.put id { acc.setBalance (asInt64 amount) with nonce := 0 } (asInt64 amount)

/-- The error fee. A payment account holds no spendable credits and is left alone. -/
def chargeError (errFee : Int) : Accounts :=
  match a.find id with
  | none => a
  | some acc =>
    if acc.getBalance < 0 then a
    else
      let b := int64 (acc.getBalance - errFee)
      if b ≤ 0 then a.drop id (-max 0 acc.getBalance)
      else a.put id (acc.setBalance b) (-errFee)

/-- `CES_NONCELESS`. -/
def nonceless : UInt32 := 0xFFFFFFFF

/-- The result code and the store after the error fee, when one is charged. -/
def validateSpend (amount fee : UInt64) (reqNonce : UInt32) (errFee : Int) : Rc × Accounts :=
  match a.find id with
  | none => (.originNotFound, a)
  | some acc =>
    if 2 ^ 64 ≤ amount.toNat + fee.toNat then (.insufficientBalance, a.chargeError id errFee)
    else if acc.getBalance < 0 ∨ acc.getBalance < (amount + fee).toNat then
      (.insufficientBalance, a.chargeError id errFee)
    else if reqNonce ≠ 0 ∧ reqNonce ≠ nonceless ∧ reqNonce ≠ acc.nonce + 1 then
      (.wrongNonce, a.chargeError id errFee)
    else (.ok, a)

def adjustTotalCredits (delta : Int) : Accounts :=
  { a with totalCredits := int64 (a.totalCredits + delta) }

/-! ### What a write does -/

@[simp] theorem find_put (x : HashPrefix) (acc : Account) (delta : Int) :
    (a.put id acc delta).find x = if x = id then some acc else a.find x :=
  FMap.lookup_insert_eq a.store id x acc

@[simp] theorem find_drop (x : HashPrefix) (delta : Int) :
    (a.drop id delta).find x = if x = id then none else a.find x :=
  FMap.lookup_erase_eq a.store id x

theorem balance_of_find {a : Accounts} {id : HashPrefix} {acc : Account} (h : a.find id = some acc) :
    a.balance id = acc.getBalance := by
  simp [balance, h]

theorem balance_of_none {a : Accounts} {id : HashPrefix} (h : a.find id = none) :
    a.balance id = 0 := by
  simp [balance, h]

theorem balance_lower : balanceMin ≤ a.balance id := by
  cases h : a.find id with
  | none => rw [balance_of_none h]; decide
  | some acc => rw [balance_of_find h]; exact acc.getBalance_lower

theorem balance_upper : a.balance id ≤ balanceMax := by
  cases h : a.find id with
  | none => rw [balance_of_none h]; decide
  | some acc => rw [balance_of_find h]; exact acc.getBalance_upper

theorem balance_put (x : HashPrefix) (acc : Account) (delta : Int) :
    (a.put id acc delta).balance x = if x = id then acc.getBalance else a.balance x := by
  unfold balance
  rw [find_put]
  split_ifs <;> rfl

theorem balance_drop (x : HashPrefix) (delta : Int) :
    (a.drop id delta).balance x = if x = id then 0 else a.balance x := by
  unfold balance
  rw [find_drop]
  split_ifs <;> rfl

theorem credits_nonneg : 0 ≤ a.credits :=
  a.store.sumOver_nonneg fun _ => le_max_left _ _

/-- The contribution of one cell to the credits. -/
theorem valueAt_positive : a.store.valueAt id Account.positive = max 0 (a.balance id) := by
  unfold FMap.valueAt balance find
  cases a.store.lookup id with
  | none => rfl
  | some acc => rfl

theorem credits_put (acc : Account) (delta : Int) :
    (a.put id acc delta).credits = a.credits - max 0 (a.balance id) + max 0 acc.getBalance := by
  rw [← valueAt_positive]
  exact FMap.sumOver_insert a.store id acc Account.positive

theorem credits_drop (delta : Int) :
    (a.drop id delta).credits = a.credits - max 0 (a.balance id) := by
  rw [← valueAt_positive]
  exact FMap.sumOver_erase a.store id Account.positive

variable {a id}

theorem tallied_put {acc : Account} {delta : Int} (h : a.Tallied)
    (hdelta : delta = max 0 acc.getBalance - max 0 (a.balance id)) : (a.put id acc delta).Tallied := by
  have hsum := credits_put a id acc delta
  unfold Tallied at *
  rw [hsum, show a.credits - max 0 (a.balance id) + max 0 acc.getBalance = a.credits + delta by omega]
  change int64 (a.totalCredits + delta) = _
  rw [h, int64_add_int64]

theorem tallied_drop {delta : Int} (h : a.Tallied) (hdelta : delta = -max 0 (a.balance id)) :
    (a.drop id delta).Tallied := by
  have hsum := credits_drop a id delta
  unfold Tallied at *
  rw [hsum, show a.credits - max 0 (a.balance id) = a.credits + delta by omega]
  change int64 (a.totalCredits + delta) = _
  rw [h, int64_add_int64]

/-! ### Debits -/

/-- What any debit does to the store: the account is gone, or holds the wrapped difference. -/
theorem find_debit {acc : Account} (hfind : a.find id = some acc) (total : UInt64) (x : HashPrefix) :
    (a.debit id total).find x =
      if x = id then
        if int64 (acc.getBalance - asInt64 total) ≤ 0 then none
        else some { acc.setBalance (int64 (acc.getBalance - asInt64 total)) with nonce := acc.nonce + 1 }
      else a.find x := by
  unfold debit debitStamped
  rw [hfind]
  dsimp only
  by_cases hgone : int64 (acc.getBalance - asInt64 total) ≤ 0
  · simp only [if_pos hgone, find_drop]
  · simp only [if_neg hgone, find_put]

/-- A debit moves the credits by what it does to the balance. -/
theorem credits_debit (total : UInt64) :
    (a.debit id total).credits =
      a.credits - max 0 (a.balance id) + max 0 ((a.debit id total).balance id) := by
  unfold debit debitStamped
  cases hfind : a.find id with
  | none =>
    dsimp only
    omega
  | some acc =>
    dsimp only
    split_ifs
    · rw [credits_drop, balance_drop, if_pos rfl]
      omega
    · rw [credits_put, balance_put, if_pos rfl]

section debits

variable {stamp : Account → Account} (hstamp : ∀ acc, (stamp acc).getBalance = acc.getBalance)
include hstamp

/-- A covered debit takes exactly `total`; an account that reaches zero is gone, which reads as zero. -/
theorem balance_debitStamped {total : UInt64} (hsmall : total.toNat < 2 ^ 63)
    (hcovered : (total.toNat : Int) ≤ a.balance id) (x : HashPrefix) :
    (a.debitStamped id stamp total).balance x =
      if x = id then a.balance id - total.toNat else a.balance x := by
  have hupper := a.balance_upper id
  unfold balanceMax at hupper
  unfold debitStamped
  cases hfind : a.find id with
  | none =>
    have hzero := balance_of_none hfind
    simp only
    split_ifs with hx
    · subst hx
      omega
    · rfl
  | some acc =>
    have hbal := balance_of_find hfind
    have hnew : int64 (acc.getBalance - asInt64 total) = a.balance id - total.toNat := by
      rw [asInt64_of_lt hsmall, ← hbal]
      exact int64_of_range (by omega) (by omega)
    simp only [hnew]
    split_ifs with hgone hx hx
    · rw [balance_drop, if_pos hx]
      omega
    · rw [balance_drop, if_neg hx]
    · rw [balance_put, if_pos hx, hstamp]
      exact wrap48_of_range (by unfold balanceMin; omega) (by unfold balanceMax; omega)
    · rw [balance_put, if_neg hx]

theorem tallied_debitStamped {total : UInt64} (h : a.Tallied) (hsmall : total.toNat < 2 ^ 63)
    (hnonneg : 0 ≤ a.balance id) : (a.debitStamped id stamp total).Tallied := by
  have hupper := a.balance_upper id
  unfold balanceMax at hupper
  unfold debitStamped
  cases hfind : a.find id with
  | none => exact h
  | some acc =>
    have hbal := balance_of_find hfind
    have hnew : int64 (acc.getBalance - asInt64 total) = a.balance id - total.toNat := by
      rw [asInt64_of_lt hsmall, ← hbal]
      exact int64_of_range (by omega) (by omega)
    simp only [hnew]
    split_ifs with hgone
    · exact tallied_drop h (by rw [hbal])
    · refine tallied_put h ?_
      have hstored : wrap48 (a.balance id - total.toNat) = a.balance id - total.toNat :=
        wrap48_of_range (by unfold balanceMin; omega) (by unfold balanceMax; omega)
      rw [hstamp, asInt64_of_lt hsmall]
      change _ = max 0 (wrap48 (a.balance id - total.toNat)) - _
      rw [hstored]
      omega

end debits

theorem balance_debit {total : UInt64} (hsmall : total.toNat < 2 ^ 63)
    (hcovered : (total.toNat : Int) ≤ a.balance id) (x : HashPrefix) :
    (a.debit id total).balance x = if x = id then a.balance id - total.toNat else a.balance x :=
  balance_debitStamped (fun _ => rfl) hsmall hcovered x

theorem tallied_debit {total : UInt64} (h : a.Tallied) (hsmall : total.toNat < 2 ^ 63)
    (hnonneg : 0 ≤ a.balance id) : (a.debit id total).Tallied :=
  tallied_debitStamped (fun _ => rfl) h hsmall hnonneg

/-- A debit never leaves a non-negative account negative: what it cannot cover it erases. -/
theorem balance_debit_nonneg {total : UInt64} (hsmall : total.toNat < 2 ^ 63) (hnonneg : 0 ≤ a.balance id) :
    0 ≤ (a.debit id total).balance id := by
  have hupper := a.balance_upper id
  unfold balanceMax at hupper
  unfold debit debitStamped
  cases hfind : a.find id with
  | none => exact hnonneg
  | some acc =>
    have hbal := balance_of_find hfind
    have hnew : int64 (acc.getBalance - asInt64 total) = a.balance id - total.toNat := by
      rw [asInt64_of_lt hsmall, ← hbal]
      exact int64_of_range (by omega) (by omega)
    simp only [hnew]
    split_ifs with hgone
    · rw [balance_drop, if_pos rfl]
    · rw [balance_put, if_pos rfl, Account.getBalance_setNonce, Account.getBalance_setBalance,
        wrap48_of_range (by unfold balanceMin; omega) (by unfold balanceMax; omega)]
      omega

theorem balance_debitTransfer {total : UInt64} (hsmall : total.toNat < 2 ^ 63)
    (hcovered : (total.toNat : Int) ≤ a.balance id) (destId : HashPrefix) (xferAmount : UInt64) (time : UInt32)
    (x : HashPrefix) :
    (a.debitTransfer id total destId xferAmount time).balance x =
      if x = id then a.balance id - total.toNat else a.balance x := by
  have hstamp : ∀ acc, (xferStamp destId xferAmount time acc).getBalance = acc.getBalance := fun _ => rfl
  exact balance_debitStamped hstamp hsmall hcovered x

theorem tallied_debitTransfer {total : UInt64} (h : a.Tallied) (hsmall : total.toNat < 2 ^ 63)
    (hnonneg : 0 ≤ a.balance id) (destId : HashPrefix) (xferAmount : UInt64) (time : UInt32) :
    (a.debitTransfer id total destId xferAmount time).Tallied := by
  have hstamp : ∀ acc, (xferStamp destId xferAmount time acc).getBalance = acc.getBalance := fun _ => rfl
  exact tallied_debitStamped hstamp h hsmall hnonneg

/-! ### Credits -/

/-- The room test in unsigned arithmetic is the room below the cap. -/
theorem credit_room (current : Int) (hlow : balanceMin ≤ current) (hhigh : current ≤ balanceMax)
    (amount : UInt64) :
    amount ≤ asUInt64 balanceMax - asUInt64 current ↔ (amount.toNat : Int) ≤ balanceMax - current := by
  have hmax := asUInt64_toNat balanceMax
  have hcur := asUInt64_toNat current
  have hc := (asUInt64 current).toNat_lt
  rw [UInt64.le_iff_toNat_le, UInt64.toNat_sub]
  unfold balanceMax balanceMin at *
  omega

theorem credit_eq {acc : Account} (hfind : a.find id = some acc) (amount : UInt64) :
    a.credit id amount =
      a.put id (acc.setBalance (min balanceMax (acc.getBalance + amount.toNat)))
        (min balanceMax (acc.getBalance + amount.toNat) - acc.getBalance) := by
  have hlow := acc.getBalance_lower
  have hhigh := acc.getBalance_upper
  have hroom := credit_room acc.getBalance hlow hhigh amount
  unfold credit
  rw [hfind]
  simp only [hroom]
  split_ifs with hfits
  · have hsmall : amount.toNat < 2 ^ 63 := by unfold balanceMax balanceMin at *; omega
    have hsum : int64 (acc.getBalance + asInt64 amount) = acc.getBalance + amount.toNat := by
      rw [asInt64_of_lt hsmall]
      exact int64_of_range (by unfold balanceMin at *; omega) (by unfold balanceMax at *; omega)
    rw [hsum, min_eq_right (by omega)]
  · rw [min_eq_left (by omega)]

theorem credit_of_none (hfind : a.find id = none) (amount : UInt64) : a.credit id amount = a := by
  simp [credit, hfind]

/-- The stored balance after a credit: the sum, clamped at the cap. -/
theorem wrap48_credit (acc : Account) (amount : UInt64) :
    wrap48 (min balanceMax (acc.getBalance + amount.toNat)) =
      min balanceMax (acc.getBalance + amount.toNat) := by
  have hlow := acc.getBalance_lower
  exact wrap48_of_range (by unfold balanceMin balanceMax at *; omega) (min_le_left _ _)

theorem balance_credit {acc : Account} (hfind : a.find id = some acc) (amount : UInt64)
    (x : HashPrefix) :
    (a.credit id amount).balance x =
      if x = id then min balanceMax (a.balance id + amount.toNat) else a.balance x := by
  rw [credit_eq hfind, balance_put, Account.getBalance_setBalance, wrap48_credit,
    balance_of_find hfind]

theorem credits_credit (amount : UInt64) :
    (a.credit id amount).credits =
      a.credits - max 0 (a.balance id) + max 0 ((a.credit id amount).balance id) := by
  cases hfind : a.find id with
  | none =>
    rw [credit_of_none hfind]
    omega
  | some acc => rw [credit_eq hfind, credits_put, balance_put, if_pos rfl]

/-- A credit keeps the tally unless it lands on a payment account. -/
theorem tallied_credit {amount : UInt64} (h : a.Tallied)
    (hnonneg : 0 ≤ a.balance id ∨ amount = 0) : (a.credit id amount).Tallied := by
  cases hfind : a.find id with
  | none => rwa [credit_of_none hfind]
  | some acc =>
    have hhigh := acc.getBalance_upper
    rw [credit_eq hfind]
    refine tallied_put h ?_
    rw [Account.getBalance_setBalance, wrap48_credit, balance_of_find hfind]
    rw [balance_of_find hfind] at hnonneg
    rcases hnonneg with hnonneg | rfl
    · unfold balanceMax at *
      omega
    · simp only [UInt64.toNat_zero]
      omega

theorem tallied_createAccount {acc : Account} (h : a.Tallied) (hfree : a.balance id ≤ 0) :
    (a.createAccount id acc).Tallied := by
  refine tallied_put h ?_
  split_ifs <;> omega

theorem tallied_settlePayment {amount : UInt64} (h : a.Tallied) (howed : a.balance id ≤ 0)
    (hsmall : (amount.toNat : Int) ≤ balanceMax) : (a.settlePayment id amount).Tallied := by
  unfold settlePayment
  cases hfind : a.find id with
  | none => exact h
  | some acc =>
    refine tallied_put h ?_
    have hlt : amount.toNat < 2 ^ 63 := by unfold balanceMax at hsmall; omega
    rw [Account.getBalance_setNonce, Account.getBalance_setBalance, asInt64_of_lt hlt,
      wrap48_of_range (by unfold balanceMin; omega) hsmall]
    omega

theorem tallied_chargeError {errFee : Int} (h : a.Tallied) (hfee : 0 ≤ errFee)
    (hfee64 : errFee < 2 ^ 63) : (a.chargeError id errFee).Tallied := by
  unfold chargeError
  cases hfind : a.find id with
  | none => exact h
  | some acc =>
    have hbal := balance_of_find hfind
    have hhigh := acc.getBalance_upper
    unfold balanceMax at hhigh
    simp only
    split_ifs with hneg hgone
    · exact h
    · exact tallied_drop h (by rw [hbal])
    · have hb : int64 (acc.getBalance - errFee) = acc.getBalance - errFee :=
        int64_of_range (by omega) (by omega)
      rw [hb] at hgone ⊢
      refine tallied_put h ?_
      rw [Account.getBalance_setBalance,
        wrap48_of_range (by unfold balanceMin; omega) (by unfold balanceMax; omega), hbal]
      omega

theorem tallied_load (store : FMap HashPrefix Account) : (load store).Tallied := rfl

end Accounts

end Ces
