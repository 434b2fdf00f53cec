import Ces.Ledger.Mint

/-!
# Exact moves

What the direct debits and credits of the L2 handlers do when the amount survives its signed cast.
`Took a a' payer paid` says that `a'` is `a` with `paid` taken from the payer and nothing else changed;
`balance_creditOrCreate` and `balance_brrInner` say what a credit adds, up to the balance cap.
-/

namespace Ces

open Ces.Lib

namespace Accounts

/-- `paid` credits of the payer are gone, and no other balance moved. -/
structure Took (a a' : Accounts) (payer : HashPrefix) (paid : Nat) : Prop where
  credits : a'.credits = a.credits - paid
  balance : ∀ x, a'.balance x = if x = payer then a.balance x - paid else a.balance x
  covered : (paid : Int) ≤ max 0 (a.balance payer)

namespace Took

variable {a a' : Accounts} {payer : HashPrefix} {paid : Nat}

theorem refl (a : Accounts) (payer : HashPrefix) : a.Took a payer 0 :=
  ⟨by omega, fun x => by simp, by simp⟩

/-- No balance exceeds the cap, so nobody pays more. -/
theorem paid_le (h : a.Took a' payer paid) : (paid : Int) ≤ balanceMax := by
  have hcovered := h.covered
  have hupper := a.balance_upper payer
  have hcap : (0 : Int) ≤ balanceMax := by decide
  omega

end Took

variable {a : Accounts} {id : HashPrefix}

theorem took_debit {total : UInt64} (hsmall : total.toNat < 2 ^ 63)
    (hcovered : (total.toNat : Int) ≤ a.balance id) : a.Took (a.debit id total) id total.toNat := by
  have hbalance := balance_debit hsmall hcovered
  refine ⟨?_, fun x => ?_, by omega⟩
  · rw [credits_debit, hbalance, if_pos rfl]
    omega
  · rw [hbalance]
    split_ifs with hx
    · rw [hx]
    · rfl

/-- A spend that goes through takes its amount. -/
theorem took_signerSpend {a' : Accounts} {signer : Hash} {amount : UInt64} {reqNonce : UInt32} {errFee : Int}
    (h : a.signerSpend signer amount reqNonce errFee = (.ok, a')) : a.Took a' (getHashPrefix signer) amount.toNat := by
  unfold signerSpend at h
  by_cases hzero : amount = 0
  · rw [if_pos hzero] at h
    obtain rfl := (Prod.mk.inj h).2
    rw [hzero]
    exact Took.refl a _
  rw [if_neg hzero] at h
  rcases a.validateSpend_cases (getHashPrefix signer) amount 0 reqNonce errFee with
    ⟨rc, hrc, heq⟩ | ⟨rc, hrc, heq⟩ | ⟨heq, hcovers⟩
  · rw [heq] at h
    cases rc with
    | ok => exact absurd rfl hrc
    | _ => cases h
  · rw [heq] at h
    cases rc with
    | ok => exact absurd rfl hrc
    | _ => cases h
  · rw [heq] at h
    obtain rfl := (Prod.mk.inj h).2
    have hcovered := hcovers.covered
    have htotal := hcovers.total_lt
    simp only [UInt64.toNat_zero, Nat.add_zero] at hcovered htotal
    exact took_debit htotal hcovered

/-- Below `2 ^ 63` the signed guard is the right one. -/
theorem debitAccount_cases (a : Accounts) (key : Hash) {amount : UInt64} (hsmall : amount.toNat < 2 ^ 63) :
    a.debitAccount key amount = (false, a) ∨
    (∃ a', a.debitAccount key amount = (true, a') ∧ a.Took a' (getHashPrefix key) amount.toNat) := by
  unfold debitAccount
  cases hfind : a.find (getHashPrefix key) with
  | none => exact .inl rfl
  | some acc =>
    have hbal := balance_of_find hfind
    dsimp only
    rw [asInt64_of_lt hsmall]
    split_ifs with hpoor
    · exact .inl rfl
    · exact .inr ⟨_, rfl, took_debit hsmall (by omega)⟩

/-- A covered debit always goes through; of a missing account only nothing can be covered. -/
theorem took_debitAccount {key : Hash} {amount : UInt64} (hsmall : amount.toNat < 2 ^ 63)
    (hcovered : (amount.toNat : Int) ≤ a.balance (getHashPrefix key)) :
    a.Took (a.debitAccount key amount).2 (getHashPrefix key) amount.toNat := by
  unfold debitAccount
  cases hfind : a.find (getHashPrefix key) with
  | none =>
    rw [balance_of_none hfind] at hcovered
    rw [show amount.toNat = 0 by omega]
    exact Took.refl a _
  | some acc =>
    have hbal := balance_of_find hfind
    dsimp only
    rw [asInt64_of_lt hsmall, if_neg (by omega)]
    exact took_debit hsmall hcovered

theorem debitProgramAccount_cases (a : Accounts) (key : Hash) {amount : Int} (hnonneg : 0 ≤ amount)
    (hsmall : amount < 2 ^ 63) :
    (∃ bal, a.debitProgramAccount key amount = ((false, bal), a)) ∨
    (∃ bal a', a.debitProgramAccount key amount = ((true, bal), a') ∧
      a.Took a' (getHashPrefix key) amount.toNat) := by
  have hcast := asUInt64_toNat_of_nonneg hnonneg (by omega)
  unfold debitProgramAccount
  cases hfind : a.find (getHashPrefix key) with
  | none => exact .inl ⟨_, rfl⟩
  | some acc =>
    have hbal := balance_of_find hfind
    dsimp only
    split_ifs with hpoor
    · exact .inl ⟨_, rfl⟩
    · have htook : a.Took (a.debit (getHashPrefix key) (asUInt64 amount)) (getHashPrefix key)
          (asUInt64 amount).toNat := took_debit (by omega) (by omega)
      have hpaid : (asUInt64 amount).toNat = amount.toNat := by omega
      rw [hpaid] at htook
      exact .inr ⟨_, _, rfl, htook⟩

/-! ### Credits -/

/-- A credit of a positive amount: the sum, clamped at the cap; a missing account starts at zero. -/
theorem balance_creditOrCreate (a : Accounts) (key : Hash) {amount : UInt64}
    (hsmall : (amount.toNat : Int) ≤ balanceMax) (x : HashPrefix) :
    (a.creditOrCreate key amount).balance x =
      if x = getHashPrefix key then min balanceMax (a.balance x + amount.toNat) else a.balance x := by
  have hlt : amount.toNat < 2 ^ 63 := by unfold balanceMax at hsmall; omega
  unfold creditOrCreate
  cases hfind : a.find (getHashPrefix key) with
  | none =>
    have hzero := balance_of_none hfind
    dsimp only [createAccount]
    rw [balance_put, Account.getBalance_ofKey, asInt64_of_lt hlt,
      wrap48_of_range (by unfold balanceMin; omega) hsmall]
    split_ifs with hx
    · rw [hx, hzero]
      omega
    · rfl
  | some acc =>
    dsimp only
    rw [balance_credit hfind]
    split_ifs with hx
    · rw [hx]
    · rfl

theorem credits_creditOrCreate (a : Accounts) (key : Hash) (amount : UInt64) :
    (a.creditOrCreate key amount).credits =
      a.credits - max 0 (a.balance (getHashPrefix key)) +
        max 0 ((a.creditOrCreate key amount).balance (getHashPrefix key)) := by
  unfold creditOrCreate
  cases hfind : a.find (getHashPrefix key) with
  | none => simp only [createAccount, credits_put, balance_put, if_true]
  | some acc => exact credits_credit amount

/-- `_brrInner` adds the amount, up to the cap. -/
theorem balance_brrInner (a : Accounts) (key : Hash) (amount : Int) (x : HashPrefix) :
    (a.brrInner key amount).balance x =
      if x = getHashPrefix key then min balanceMax (a.balance x + min (max 0 amount) balanceMax)
      else a.balance x := by
  have hupper := a.balance_upper x
  have hcap : 0 ≤ balanceMax ∧ balanceMax < 2 ^ 63 := by decide
  unfold brrInner
  split_ifs with hnone hx hx
  · rw [max_eq_left hnone, min_eq_left hcap.1, add_zero, min_eq_right hupper]
  · rfl
  · have hcast : ((asUInt64 (min amount balanceMax)).toNat : Int) = min amount balanceMax :=
      asUInt64_toNat_of_nonneg (by omega) (by omega)
    rw [balance_creditOrCreate a key (by omega), if_pos hx, hcast, max_eq_right (by omega)]
  · have hcast : ((asUInt64 (min amount balanceMax)).toNat : Int) = min amount balanceMax :=
      asUInt64_toNat_of_nonneg (by omega) (by omega)
    rw [balance_creditOrCreate a key (by omega), if_neg hx]

end Accounts

end Ces
