import Ces.Server

/-!
# Paid operations

Every signed request goes the same way: resolve the fees, let `validateSpend` check balance and nonce, make
the operation's own checks (most failures cost the error fee), then write and debit. `spend` and `paidOp`
are that way once; the operations give their checks and writes. `spendOr_rule` and `paidOp_rule` say what
has to be shown of an operation to know something of the state it leaves.
-/

namespace Ces

open Ces.Lib

/-! ### Rents -/

def accountBytes : UInt64 := 64
def aliasBytes : UInt64 := 1024
def keynameBytes : UInt64 := 128

/-- A day's rent of an alias and of a key name: the account fee at the byte ratio. -/
def CesConfig.feeAlias (cfg : CesConfig) : UInt64 := cfg.feeAccount * aliasBytes / accountBytes
def CesConfig.feeKeyName (cfg : CesConfig) : UInt64 := cfg.feeAccount * keynameBytes / accountBytes

/-! ### Prepaid days -/

def prepaidDiscountWindowDays : Nat := 90

/-- The rate, in basis points, of a day at distance `d`: the discount fades out over the window. -/
def effectiveBp (bp : UInt16) (d : UInt32) : UInt64 :=
  if prepaidDiscountWindowDays ≤ d.toNat then 10000
  else 10000 - (10000 - bp).toUInt64 * UInt64.ofNat (prepaidDiscountWindowDays - d.toNat) /
    UInt64.ofNat prepaidDiscountWindowDays

def computePrepayCost (feePerDay : UInt64) (bp : UInt16) (daysAdded daysHeld : UInt32) : UInt64 :=
  if daysAdded = 0 ∨ feePerDay = 0 then 0
  else if 10000 ≤ bp then daysAdded.toUInt64 * feePerDay
  else
    let inWindow := min daysAdded.toNat prepaidDiscountWindowDays
    let discounted := (List.range inWindow).foldl (fun total i =>
      total + feePerDay * effectiveBp bp (daysHeld + UInt32.ofNat (i + 1)) / 10000) 0
    discounted + UInt64.ofNat (daysAdded.toNat - inWindow) * feePerDay

namespace Accounts

/-- What `validateSpend` establishes when it accepts. -/
structure Covers (a : Accounts) (id : HashPrefix) (amount fee : UInt64) : Prop where
  found : a.find id ≠ none
  fits : amount.toNat + fee.toNat < 2 ^ 64
  covered : ((amount.toNat + fee.toNat : Nat) : Int) ≤ a.balance id

namespace Covers

variable {a : Accounts} {id : HashPrefix} {amount fee : UInt64}

theorem nonneg (h : a.Covers id amount fee) : 0 ≤ a.balance id := by
  have := h.covered
  omega

theorem toNat_add (h : a.Covers id amount fee) : (amount + fee).toNat = amount.toNat + fee.toNat := by
  rw [UInt64.toNat_add]
  exact Nat.mod_eq_of_lt h.fits

/-- What was validated is far below the range of the signed casts. -/
theorem total_lt (h : a.Covers id amount fee) : amount.toNat + fee.toNat < 2 ^ 63 := by
  have hcovered := h.covered
  have hupper := a.balance_upper id
  unfold balanceMax at hupper
  omega

end Covers

/-- Either the request is refused, at most at the price of the error fee, or it is covered. -/
theorem validateSpend_cases (a : Accounts) (id : HashPrefix) (amount fee : UInt64) (reqNonce : UInt32)
    (errFee : Int) :
    (∃ rc, rc ≠ Rc.ok ∧ a.validateSpend id amount fee reqNonce errFee = (rc, a)) ∨
    (∃ rc, rc ≠ Rc.ok ∧ a.validateSpend id amount fee reqNonce errFee = (rc, a.chargeError id errFee)) ∨
    (a.validateSpend id amount fee reqNonce errFee = (.ok, a) ∧ a.Covers id amount fee) := by
  unfold validateSpend
  cases hfind : a.find id with
  | none => exact .inl ⟨_, by decide, rfl⟩
  | some acc =>
    dsimp only
    split_ifs with hwide hpoor hnonce
    · exact .inr (.inl ⟨_, by decide, rfl⟩)
    · exact .inr (.inl ⟨_, by decide, rfl⟩)
    · exact .inr (.inl ⟨_, by decide, rfl⟩)
    · refine .inr (.inr ⟨rfl, by simp [hfind], by omega, ?_⟩)
      have hsum : (amount + fee).toNat = amount.toNat + fee.toNat := by
        rw [UInt64.toNat_add]
        exact Nat.mod_eq_of_lt (by omega)
      rw [balance_of_find hfind]
      rw [hsum] at hpoor
      omega

end Accounts

namespace CesServer

/-! ### The common path -/

def attenuatedFundCost (s : CesServer) (k : FeeKind) (feePerDay : Int) (daysAdded daysHeld : UInt32) :
    UInt64 :=
  computePrepayCost (asUInt64 feePerDay) (s.feeMult k) daysAdded daysHeld

/-- The error fee of a request: `getFeeError` is the query fee. -/
def errorFee (s : CesServer) (errFee : Int) : Int := s.discountedFlatFee errFee s.cfg.feeQuery .query

def chargeError (s : CesServer) (origin : HashPrefix) (errFee : Int) : CesServer :=
  { s with accounts := s.accounts.chargeError origin errFee }

def debit (s : CesServer) (origin : HashPrefix) (total : UInt64) : CesServer :=
  { s with accounts := s.accounts.debit origin total }

/-- Fail with `rc` and charge the error fee. -/
def refuse (s : CesServer) (origin : HashPrefix) (errFee : Int) (rc : Rc) : Rc × CesServer :=
  (rc, s.chargeError origin errFee)

/-- Go on with `next` when the origin can pay and the nonce is right; otherwise `fail` gets the code and the
state. -/
def spendOr {β : Type} (s : CesServer) (origin : HashPrefix) (amount fee : UInt64) (reqNonce : UInt32)
    (errFee : Int) (fail : Rc → CesServer → β) (next : β) : β :=
  match s.accounts.validateSpend origin amount fee reqNonce errFee with
  | (.ok, _) => next
  | (rc, accounts) => fail rc { s with accounts := accounts }

def spend (s : CesServer) (origin : HashPrefix) (amount fee : UInt64) (reqNonce : UInt32) (errFee : Int)
    (next : Rc × CesServer) : Rc × CesServer :=
  s.spendOr origin amount fee reqNonce errFee Prod.mk next

/-- What the checks of an operation come to, once the spend is validated. -/
inductive Outcome where
  /-- Fail, charging nothing. -/
  | refused (rc : Rc)
  /-- Fail and charge the error fee. -/
  | charged (rc : Rc)
  /-- Go ahead; the state holds the operation's writes. -/
  | accepted (s : CesServer)

/-- An operation that costs `cost` and moves no value. -/
def paidOp (s : CesServer) (origin : HashPrefix) (cost : UInt64) (reqNonce : UInt32) (errFee : Int)
    (outcome : Outcome) : Rc × CesServer :=
  s.spend origin 0 cost reqNonce errFee <|
    match outcome with
    | .refused rc => (rc, s)
    | .charged rc => s.refuse origin errFee rc
    | .accepted t => (.ok, t.debit origin cost)

/-- The request is refused, at most at the price of the error fee, or goes on covered. -/
theorem spendOr_cases {β : Type} (s : CesServer) (origin : HashPrefix) (amount fee : UInt64) (reqNonce : UInt32)
    (errFee : Int) (fail : Rc → CesServer → β) (next : β) :
    (∃ rc, rc ≠ Rc.ok ∧ (s.spendOr origin amount fee reqNonce errFee fail next = fail rc s ∨
      s.spendOr origin amount fee reqNonce errFee fail next = fail rc (s.chargeError origin errFee))) ∨
    (s.spendOr origin amount fee reqNonce errFee fail next = next ∧ s.accounts.Covers origin amount fee) := by
  unfold spendOr
  rcases s.accounts.validateSpend_cases origin amount fee reqNonce errFee with
    ⟨rc, hrc, heq⟩ | ⟨rc, hrc, heq⟩ | ⟨heq, hcovers⟩
  · rw [heq]
    cases rc with
    | ok => exact absurd rfl hrc
    | _ => exact .inl ⟨_, hrc, .inl rfl⟩
  · rw [heq]
    cases rc with
    | ok => exact absurd rfl hrc
    | _ => exact .inl ⟨_, hrc, .inr rfl⟩
  · rw [heq]
    exact .inr ⟨rfl, hcovers⟩

section rules

variable {s : CesServer} {origin : HashPrefix} {reqNonce : UInt32} {errFee : Int}

theorem spendOr_rule {β : Type} {P : β → Prop} {amount fee : UInt64} {fail : Rc → CesServer → β} {next : β}
    (hs : ∀ rc, P (fail rc s)) (hcharged : ∀ rc, P (fail rc (s.chargeError origin errFee)))
    (hnext : s.accounts.Covers origin amount fee → P next) :
    P (s.spendOr origin amount fee reqNonce errFee fail next) := by
  rcases s.spendOr_cases origin amount fee reqNonce errFee fail next with ⟨rc, -, heq | heq⟩ | ⟨heq, hcovers⟩
  · rw [heq]
    exact hs rc
  · rw [heq]
    exact hcharged rc
  · rw [heq]
    exact hnext hcovers

theorem spend_rule {P : CesServer → Prop} {amount fee : UInt64} {next : Rc × CesServer} (hs : P s)
    (hcharged : P (s.chargeError origin errFee))
    (hnext : s.accounts.Covers origin amount fee → P next.2) :
    P (s.spend origin amount fee reqNonce errFee next).2 :=
  spendOr_rule (P := fun r : Rc × CesServer => P r.2) (fun _ => hs) (fun _ => hcharged) hnext

theorem paidOp_rule {P : CesServer → Prop} {cost : UInt64} {outcome : Outcome} (hs : P s)
    (hcharged : P (s.chargeError origin errFee))
    (haccepted : ∀ t, outcome = .accepted t → s.accounts.Covers origin 0 cost → P (t.debit origin cost)) :
    P (s.paidOp origin cost reqNonce errFee outcome).2 := by
  refine spend_rule hs hcharged fun hcovers => ?_
  cases outcome with
  | refused rc => exact hs
  | charged rc => exact hcharged
  | accepted t => exact haccepted t rfl hcovers

end rules

theorem discountedFlatFee_range (s : CesServer) (passedFee : Int) (defaultFee : UInt64) (k : FeeKind) :
    0 ≤ s.discountedFlatFee passedFee defaultFee k ∧ s.discountedFlatFee passedFee defaultFee k < 2 ^ 51 := by
  have hlt := s.discountFee_lt k (asUInt64 (resolveFee passedFee (asInt64 defaultFee)))
  rw [discountedFlatFee_eq]
  omega

theorem tallied_chargeError {t : CesServer} (h : t.accounts.Tallied) (s : CesServer) (origin : HashPrefix)
    (errFee : Int) : (t.chargeError origin (s.errorFee errFee)).accounts.Tallied := by
  have hrange := s.discountedFlatFee_range errFee s.cfg.feeQuery .query
  exact Accounts.tallied_chargeError h hrange.1 (by unfold errorFee; omega)

/-- A paid operation keeps the tally when its writes leave the tally and the payer's balance alone. -/
theorem tallied_paidOp {s : CesServer} {origin : HashPrefix} {cost : UInt64} {reqNonce : UInt32}
    {errFee : Int} {outcome : Outcome} (h : s.accounts.Tallied)
    (hwrites : ∀ t, outcome = .accepted t →
      t.accounts.Tallied ∧ t.accounts.balance origin = s.accounts.balance origin) :
    (s.paidOp origin cost reqNonce (s.errorFee errFee) outcome).2.accounts.Tallied := by
  refine paidOp_rule (P := fun t => t.accounts.Tallied) h (tallied_chargeError h s origin errFee) ?_
  intro t ht hcovers
  obtain ⟨htally, hbal⟩ := hwrites t ht
  have htotal := hcovers.total_lt
  refine Accounts.tallied_debit htally (by simpa using htotal) ?_
  rw [hbal]
  exact hcovers.nonneg

end CesServer

end Ces
