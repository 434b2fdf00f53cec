import Ces.Ledger.Keyed

/-!
# What a transfer does

`move_cases` lists the ways a transfer between accounts without hooks can end: refused, at most at the price of the
error fee; into an account it opens; or into one that is there. From it follows what each of them does to every account
(`Moved`, `Refused`). The deduction of a transfer that opens its target is compared with the balance as an `int64_t`, so
one of `2 ^ 63` or more passes the comparison; `SignedCost` excludes that.
-/

namespace Ces

open Ces.Lib CesServer

namespace Accounts

variable {a : Accounts} {id x : HashPrefix}

theorem Covers.amount_le {amount fee : UInt64} (h : a.Covers id amount fee) : (amount.toNat : Int) ≤ balanceMax := by
  have hcovered := h.covered
  have hupper := a.balance_upper id
  omega

/-- The target is opened when the deduction passes as a signed word. -/
theorem openTarget_of_fits (a : Accounts) (destId : HashPrefix) (acc : Account) (balance : Int)
    {amount total cost : UInt64} (hfits : total.toNat + cost.toNat < 2 ^ 64)
    (hsigned : asInt64 (total + cost) ≤ balance) (hamount : (amount.toNat : Int) ≤ balanceMax) :
    a.openTarget balance destId acc amount total cost = .ok (total + cost, a.createAccount destId acc) := by
  have hroom : creditWouldOverflow 0 amount = false := by
    simp only [creditWouldOverflow, Bool.and_eq_false_iff, decide_eq_false_iff_not]
    omega
  unfold openTarget
  rw [if_neg (by omega), if_neg (not_lt.mpr hsigned), hroom]
  rfl

/-! ### Frames -/

theorem find_createAccount_of_ne (acc : Account) (hx : x ≠ id) : (a.createAccount id acc).find x = a.find x := by
  unfold createAccount
  rw [find_put, if_neg hx]

/-- The account that was paid. -/
theorem find_payInto {dest : Account} {amount : UInt64} {a' : Accounts} (hfind : a.find id = some dest)
    (h : a.payInto id dest amount = .ok a') (hsmall : (amount.toNat : Int) ≤ balanceMax) :
    ∃ acc, a'.find id = some acc ∧ acc.aliasId = dest.aliasId ∧
      acc.getBalance = if dest.getBalance < 0 then (amount.toNat : Int) else dest.getBalance + amount.toNat := by
  rcases payInto_cases h with ⟨hneg, -, rfl⟩ | ⟨hnonneg, hroom, rfl⟩
  · have hcast : asInt64 amount = amount.toNat := asInt64_of_lt (by unfold balanceMax at hsmall; omega)
    unfold settlePayment
    rw [hfind, hcast, if_pos hneg]
    dsimp only
    rw [find_put, if_pos rfl]
    refine ⟨_, rfl, by unfold Account.setBalance; rfl, ?_⟩
    rw [Account.getBalance_setNonce, Account.getBalance_setBalance]
    exact wrap48_of_range (by unfold balanceMin; omega) hsmall
  · rw [credit_eq hfind, find_put, if_pos rfl, if_neg (not_lt.mpr hnonneg)]
    refine ⟨_, rfl, rfl, ?_⟩
    rw [Account.getBalance_setBalance, wrap48_credit]
    exact min_eq_right (by omega)

/-! ### The account itself -/

/-- The error fee takes what it says, or all there is. -/
theorem balance_chargeError {errFee : Int} (hfee : 0 ≤ errFee) (hfee64 : errFee < 2 ^ 62) :
    0 ≤ a.balance id - (a.chargeError id errFee).balance id ∧
      a.balance id - (a.chargeError id errFee).balance id ≤ errFee := by
  have hupper := a.balance_upper id
  unfold balanceMax at hupper
  unfold chargeError
  cases hfind : a.find id with
  | none =>
    dsimp only
    omega
  | some acc =>
    have hbal := balance_of_find hfind
    dsimp only
    by_cases hneg : acc.getBalance < 0
    · rw [if_pos hneg]
      omega
    rw [if_neg hneg, int64_of_range (by omega) (by omega)]
    by_cases hgone : acc.getBalance - errFee ≤ 0
    · rw [if_pos hgone, balance_drop, if_pos rfl]
      omega
    · rw [if_neg hgone, balance_put, if_pos rfl, Account.getBalance_setBalance,
        wrap48_of_range (by unfold balanceMin; omega) (by unfold balanceMax; omega)]
      omega

/-- A debit of everything erases the account, and no other debit does. -/
theorem find_debitStamped_eq_none {stamp : Account → Account} {total : UInt64} (hfound : a.find id ≠ none)
    (hsmall : total.toNat < 2 ^ 63) (hcovered : (total.toNat : Int) ≤ a.balance id) :
    (a.debitStamped id stamp total).find id = none ↔ a.balance id = total.toNat := by
  have hupper := a.balance_upper id
  unfold balanceMax at hupper
  unfold debitStamped
  cases hfind : a.find id with
  | none => exact absurd hfind hfound
  | some acc =>
    have hbal := balance_of_find hfind
    have hnew : int64 (acc.getBalance - asInt64 total) = a.balance id - total.toNat := by
      rw [asInt64_of_lt hsmall, ← hbal]
      exact int64_of_range (by omega) (by omega)
    dsimp only
    rw [hnew]
    by_cases hgone : a.balance id - total.toNat ≤ 0
    · rw [if_pos hgone, find_drop, if_pos rfl]
      exact iff_of_true rfl (by omega)
    · rw [if_neg hgone, find_put, if_pos rfl]
      exact iff_of_false (by simp) (by omega)

end Accounts

namespace CesServer

variable {s : CesServer} {origin : HashPrefix} {amount fee : UInt64} {reqNonce : UInt32} {errFee : Int}
  {next : Rc × CesServer}

theorem valid_of_spend (h : (s.spend origin amount fee reqNonce errFee next).1 = .ok) :
    (s.accounts.validateSpend origin amount fee reqNonce errFee).1 = .ok := by
  unfold spend spendOr at h
  cases hvalid : s.accounts.validateSpend origin amount fee reqNonce errFee with
  | mk rc accounts =>
    rw [hvalid] at h
    cases rc with
    | ok => rfl
    | _ => exact h

theorem covers_of_valid (h : (s.accounts.validateSpend origin amount fee reqNonce errFee).1 = .ok) :
    s.accounts.Covers origin amount fee := by
  rcases s.accounts.validateSpend_cases origin amount fee reqNonce errFee with
    ⟨rc, hrc, heq⟩ | ⟨rc, hrc, heq⟩ | ⟨-, hcovers⟩
  · rw [heq] at h
    exact absurd h hrc
  · rw [heq] at h
    exact absurd h hrc
  · exact hcovers

theorem spend_of_valid (h : (s.accounts.validateSpend origin amount fee reqNonce errFee).1 = .ok) :
    s.spend origin amount fee reqNonce errFee next = next := by
  unfold spend spendOr
  cases hvalid : s.accounts.validateSpend origin amount fee reqNonce errFee with
  | mk rc accounts =>
    rw [hvalid] at h
    cases h
    rfl

end CesServer

namespace TransferRequest

variable {r : TransferRequest} {s : CesServer}

/-! ### How a transfer ends -/

/-- The transfer is refused. -/
structure Refusal (r : TransferRequest) (s : CesServer) (res : Rc × CesServer) : Prop where
  code : res.1 ≠ .ok
  state : res.2 = s ∨ res.2 = s.chargeError r.originId (s.errorFee r.errFee)

/-- The transfer opens its target. The deduction is compared as a signed word. -/
structure Opening (r : TransferRequest) (s : CesServer) (total : UInt64) : Prop where
  covers : s.accounts.Covers r.originId r.amount (r.flatFee s)
  missing : s.accounts.find r.destId = none
  mode : r.mode ≠ .safe
  room : s.accounts.store.size < s.cfg.maxAcc
  total_eq : total.toNat = r.amount.toNat + (r.flatFee s).toNat + (r.creationCost s).toNat
  signed : asInt64 total ≤ s.accounts.balance r.originId

/-- The transfer pays an account that is there. -/
structure Paying (r : TransferRequest) (s : CesServer) (dest : Account) (a : Accounts) : Prop where
  covers : s.accounts.Covers r.originId r.amount (r.flatFee s)
  found : s.accounts.find r.destId = some dest
  mode : r.mode ≠ .payment
  key : dest.getKey r.destId = r.destKey
  paid : s.accounts.payInto r.destId dest r.amount = .ok a

theorem refusal_refuse {rc : Rc} (h : rc ≠ .ok) : r.Refusal s (s.refuse r.originId (s.errorFee r.errFee) rc) :=
    ⟨h, .inr rfl⟩

theorem move_cases (r : TransferRequest) (s : CesServer) :
    r.Refusal s (r.move s) ∨
    (∃ total, r.Opening s total ∧ r.move s = (.ok, { s with
      accounts := (s.accounts.createAccount r.destId r.newAccount).debitTransfer r.originId total r.destId r.amount
        r.time })) ∨
    (∃ dest a, r.Paying s dest a ∧ r.move s = (.ok, { s with
      accounts := a.debitTransfer r.originId (r.amount + r.flatFee s) r.destId r.amount r.time })) := by
  unfold move spend
  rcases s.spendOr_cases r.originId r.amount (r.flatFee s) r.providedNonce (s.errorFee r.errFee) Prod.mk _ with
    ⟨rc, hrc, heq | heq⟩ | ⟨heq, hcovers⟩
  · rw [heq]
    exact .inl ⟨hrc, .inl rfl⟩
  · rw [heq]
    exact .inl ⟨hrc, .inr rfl⟩
  rw [heq]
  have hadd := hcovers.toNat_add
  cases hdest : s.accounts.find r.destId with
  | none =>
    dsimp only
    by_cases hsafe : r.mode = .safe
    · rw [if_pos hsafe]
      exact .inl (refusal_refuse (by decide))
    rw [if_neg hsafe]
    by_cases hfull : s.cfg.maxAcc ≤ s.accounts.store.size
    · rw [if_pos hfull]
      exact .inl ⟨nofun, .inl rfl⟩
    rw [if_neg hfull]
    cases hopen : s.accounts.openTarget (s.accounts.balance r.originId) r.destId r.newAccount r.amount
        (r.amount + r.flatFee s) (r.creationCost s) with
    | error rc => exact .inl (refusal_refuse (Accounts.openTarget_error hopen))
    | ok opened =>
      obtain ⟨total, a⟩ := opened
      obtain ⟨htotal, hsigned, -, rfl⟩ := Accounts.openTarget_cases hopen
      exact .inr (.inl ⟨total, ⟨hcovers, hdest, hsafe, Nat.lt_of_not_le hfull, by omega, hsigned⟩, rfl⟩)
  | some dest =>
    dsimp only
    by_cases hpayment : r.mode = .payment
    · rw [if_pos hpayment]
      exact .inl (refusal_refuse (by decide))
    rw [if_neg hpayment]
    by_cases hkey : dest.getKey r.destId ≠ r.destKey
    · rw [if_pos hkey]
      exact .inl (refusal_refuse (by decide))
    rw [if_neg hkey]
    cases hpaid : s.accounts.payInto r.destId dest r.amount with
    | error rc => exact .inl (refusal_refuse (Accounts.payInto_error hpaid))
    | ok a => exact .inr (.inr ⟨dest, a, ⟨hcovers, hdest, hpayment, not_not.mp hkey, hpaid⟩, rfl⟩)

/-- A validated request that can open its target. -/
theorem move_of_openTarget {total : UInt64} {a : Accounts}
    (hvalid : (s.accounts.validateSpend r.originId r.amount (r.flatFee s) r.providedNonce
      (s.errorFee r.errFee)).1 = .ok)
    (hmode : r.mode ≠ .safe) (hmissing : s.accounts.find r.destId = none) (hroom : s.accounts.store.size < s.cfg.maxAcc)
    (hopen : s.accounts.openTarget (s.accounts.balance r.originId) r.destId r.newAccount r.amount
      (r.amount + r.flatFee s) (r.creationCost s) = .ok (total, a)) :
    r.move s = (.ok, { s with accounts := a.debitTransfer r.originId total r.destId r.amount r.time }) := by
  unfold move
  dsimp only
  rw [spend_of_valid hvalid, hmissing]
  dsimp only
  rw [if_neg hmode, if_neg (Nat.not_le.mpr hroom), hopen]

/-- A validated request that can pay its target. -/
theorem move_of_payInto {dest : Account} {a : Accounts}
    (hvalid : (s.accounts.validateSpend r.originId r.amount (r.flatFee s) r.providedNonce
      (s.errorFee r.errFee)).1 = .ok)
    (hmode : r.mode ≠ .payment) (hfound : s.accounts.find r.destId = some dest)
    (hkey : dest.getKey r.destId = r.destKey) (hpaid : s.accounts.payInto r.destId dest r.amount = .ok a) :
    r.move s = (.ok, { s with
      accounts := a.debitTransfer r.originId (r.amount + r.flatFee s) r.destId r.amount r.time }) := by
  unfold move
  dsimp only
  rw [spend_of_valid hvalid, hfound]
  dsimp only
  rw [if_neg hmode, if_neg (not_not.mpr hkey), hpaid]

/-! ### Exactness -/

/-- What is deducted from the origin beside the amount and the flat fee. -/
def openCost (r : TransferRequest) (s : CesServer) : Nat :=
  if s.accounts.find r.destId = none then (r.creationCost s).toNat else 0

/-- What the target holds afterwards. -/
def destBalance (r : TransferRequest) (s : CesServer) : Int :=
  if r.mode = .payment then -r.amount.toNat
  else if s.accounts.balance r.destId < 0 then r.amount.toNat
  else s.accounts.balance r.destId + r.amount.toNat

/-- The effect of a transfer that succeeds, on every account. -/
structure Moved (r : TransferRequest) (s t : CesServer) : Prop where
  origin : r.originId ≠ r.destId → t.accounts.balance r.originId =
    s.accounts.balance r.originId - (r.amount.toNat + (r.flatFee s).toNat + r.openCost s : Nat)
  dest : r.originId ≠ r.destId → t.accounts.find r.destId ≠ none ∧ t.accounts.balance r.destId = r.destBalance s
  self : r.originId = r.destId →
    t.accounts.balance r.originId = s.accounts.balance r.originId - (r.flatFee s).toNat
  erased : t.accounts.find r.originId = none ↔ t.accounts.balance r.originId = 0
  other : ∀ id, id ≠ r.originId → id ≠ r.destId → t.accounts.find id = s.accounts.find id

/-- The effect of one that does not. -/
structure Refused (r : TransferRequest) (s t : CesServer) : Prop where
  other : ∀ id, id ≠ r.originId → t.accounts.find id = s.accounts.find id
  fee : 0 ≤ s.accounts.balance r.originId - t.accounts.balance r.originId ∧
    s.accounts.balance r.originId - t.accounts.balance r.originId ≤ s.errorFee r.errFee

structure Exact (r : TransferRequest) (s : CesServer) (res : TransferResult) : Prop where
  moved : res.rcode = .ok → r.Moved s res.server
  refused : res.rcode ≠ .ok → r.Refused s res.server

/-- No deduction that opens an account reaches the signed range of 64 bits. -/
def SignedCost (r : TransferRequest) (s : CesServer) : Prop :=
  r.mode ≠ .safe → s.accounts.find r.destId = none → s.accounts.store.size < s.cfg.maxAcc →
    (s.accounts.validateSpend r.originId r.amount (r.flatFee s) r.providedNonce (s.errorFee r.errFee)).1 = .ok →
    r.amount.toNat + (r.flatFee s).toNat + (r.creationCost s).toNat < 2 ^ 64 →
    r.amount.toNat + (r.flatFee s).toNat + (r.creationCost s).toNat < 2 ^ 63

theorem refused_of_refusal {res : Rc × CesServer} (h : r.Refusal s res) : r.Refused s res.2 := by
  have hrange := s.discountedFlatFee_range r.errFee s.cfg.feeQuery .query
  rcases h.state with heq | heq
  · rw [heq]
    exact ⟨fun _ _ => rfl, by unfold errorFee; omega⟩
  · rw [heq]
    refine ⟨fun id hid => Accounts.find_chargeError_of_ne hid _, ?_⟩
    exact Accounts.balance_chargeError hrange.1 (by unfold errorFee; omega)

theorem Opening.ne {total : UInt64} (h : r.Opening s total) : r.originId ≠ r.destId :=
  fun heq => h.covers.found (heq ▸ h.missing)

theorem getBalance_newAccount (hamount : (r.amount.toNat : Int) ≤ balanceMax) :
    r.newAccount.getBalance = if r.mode = .payment then -(r.amount.toNat : Int) else r.amount.toNat := by
  have hcast : asInt64 r.amount = r.amount.toNat := asInt64_of_lt (by unfold balanceMax at hamount; omega)
  unfold newAccount
  split_ifs
  · rw [Account.getBalance_ofKey, hcast]
    exact wrap48_of_range (by unfold balanceMin balanceMax at *; omega) (by unfold balanceMax; omega)
  · rw [Account.getBalance_ofKey, hcast]
    exact wrap48_of_range (by unfold balanceMin; omega) hamount

/-- Opening an account, when the deduction is in range. -/
theorem moved_of_opening {total : UInt64} (h : r.Opening s total) (hsmall : total.toNat < 2 ^ 63) :
    r.Moved s { s with
      accounts := (s.accounts.createAccount r.destId r.newAccount).debitTransfer r.originId total r.destId r.amount
        r.time } := by
  have hne := h.ne
  have htotal := h.total_eq
  have hsame : (s.accounts.createAccount r.destId r.newAccount).balance r.originId = s.accounts.balance r.originId := by
    unfold Accounts.balance
    rw [Accounts.find_createAccount_of_ne _ hne]
  have hfound : (s.accounts.createAccount r.destId r.newAccount).find r.originId ≠ none := by
    rw [Accounts.find_createAccount_of_ne _ hne]
    exact h.covers.found
  have hcovered : (total.toNat : Int) ≤ (s.accounts.createAccount r.destId r.newAccount).balance r.originId := by
    have hsigned := h.signed
    rw [asInt64_of_lt hsmall] at hsigned
    rwa [hsame]
  have hbalance := Accounts.balance_debitTransfer hsmall hcovered r.destId r.amount r.time
  have hcost : r.openCost s = (r.creationCost s).toNat := if_pos h.missing
  refine ⟨fun _ => ?_, fun _ => ⟨?_, ?_⟩, fun heq => absurd heq hne, ?_, fun id hid hdest => ?_⟩
  · rw [hbalance, if_pos rfl, hsame, hcost]
    omega
  · change (Accounts.debitStamped _ _ _ _).find _ ≠ none
    rw [Accounts.find_debitStamped_of_ne hne.symm _ _]
    unfold Accounts.createAccount
    rw [Accounts.find_put, if_pos rfl]
    exact nofun
  · rw [hbalance, if_neg hne.symm]
    unfold Accounts.createAccount destBalance
    rw [Accounts.balance_put, if_pos rfl, getBalance_newAccount h.covers.amount_le, Accounts.balance_of_none h.missing,
      if_neg (lt_irrefl (0 : Int)), zero_add]
  · rw [hbalance, if_pos rfl]
    change (Accounts.debitStamped _ _ _ _).find _ = none ↔ _
    rw [Accounts.find_debitStamped_eq_none hfound hsmall hcovered]
    omega
  · change (Accounts.debitStamped _ _ _ _).find _ = _
    rw [Accounts.find_debitStamped_of_ne hid _ _, Accounts.find_createAccount_of_ne _ hdest]

/-- Paying an account that is there. -/
theorem moved_of_paying {dest : Account} {a : Accounts} (h : r.Paying s dest a) :
    r.Moved s { s with accounts := a.debitTransfer r.originId (r.amount + r.flatFee s) r.destId r.amount r.time } := by
  have hcovers := h.covers
  have hadd := hcovers.toNat_add
  have hsmall : (r.amount + r.flatFee s).toNat < 2 ^ 63 := by
    rw [hadd]
    exact hcovers.total_lt
  have hdest := Accounts.balance_of_find h.found
  have hcost : r.openCost s = 0 := if_neg (by rw [h.found]; exact nofun)
  obtain ⟨acc, hacc, -, hpaid⟩ := Accounts.find_payInto h.found h.paid hcovers.amount_le
  have hfound : a.find r.originId ≠ none := by
    by_cases heq : r.originId = r.destId
    · rw [heq, hacc]
      exact nofun
    · rw [Accounts.find_payInto_of_ne heq h.paid]
      exact hcovers.found
  have horigin : r.originId ≠ r.destId → a.balance r.originId = s.accounts.balance r.originId := by
    intro hne
    unfold Accounts.balance
    rw [Accounts.find_payInto_of_ne hne h.paid]
  have hself : r.originId = r.destId → a.balance r.originId = s.accounts.balance r.originId + r.amount.toNat := by
    intro heq
    have hnonneg := hcovers.nonneg
    rw [heq, hdest] at hnonneg ⊢
    rw [Accounts.balance_of_find hacc, hpaid, if_neg (not_lt.mpr hnonneg)]
  have hcovered : ((r.amount + r.flatFee s).toNat : Int) ≤ a.balance r.originId := by
    have := hcovers.covered
    by_cases heq : r.originId = r.destId
    · rw [hself heq]
      omega
    · rw [horigin heq]
      omega
  have hbalance := Accounts.balance_debitTransfer hsmall hcovered r.destId r.amount r.time
  refine ⟨fun hne => ?_, fun hne => ⟨?_, ?_⟩, fun heq => ?_, ?_, fun id hid hdest => ?_⟩
  · rw [hbalance, if_pos rfl, horigin hne, hcost]
    omega
  · change (Accounts.debitStamped _ _ _ _).find _ ≠ none
    rw [Accounts.find_debitStamped_of_ne hne.symm _ _, hacc]
    exact nofun
  · rw [hbalance, if_neg hne.symm, Accounts.balance_of_find hacc, hpaid]
    unfold destBalance
    rw [if_neg h.mode, hdest]
  · rw [hbalance, if_pos rfl, hself heq]
    omega
  · rw [hbalance, if_pos rfl]
    change (Accounts.debitStamped _ _ _ _).find _ = none ↔ _
    rw [Accounts.find_debitStamped_eq_none hfound hsmall hcovered]
    omega
  · change (Accounts.debitStamped _ _ _ _).find _ = _
    rw [Accounts.find_debitStamped_of_ne hid _ _, Accounts.find_payInto_of_ne hdest h.paid]

end TransferRequest

/-! ### Accounts without hooks -/

/-- No alias of the account is a hook. -/
def CesServer.Unhooked (s : CesServer) (key : Hash) : Prop :=
  ∀ acc al, s.accounts.find (getHashPrefix key) = some acc → acc.aliasId ≠ 0 →
    s.aliases.lookup acc.aliasId = some al → al.owner = getHashPrefix key →
    aliasOpIsGate al.op = false ∧ aliasOpIsWatch al.op = false

theorem hookAlias_of_unhooked {s : CesServer} {key : Hash} (h : s.Unhooked key) (wantGate : Bool) :
    hookAlias s key wantGate = none := by
  unfold hookAlias
  cases hacc : s.accounts.find (getHashPrefix key) with
  | none => rfl
  | some acc =>
    dsimp only
    by_cases hplain : acc.getBalance < 0 ∨ acc.getKey (getHashPrefix key) ≠ key ∨ acc.aliasId = 0
    · rw [if_pos hplain]
    rw [if_neg hplain]
    cases hal : s.aliases.lookup acc.aliasId with
    | none => rfl
    | some al =>
      refine if_neg fun hmatch => ?_
      obtain ⟨howner, hop⟩ := hmatch
      obtain ⟨hgate, hwatch⟩ := h acc al hacc (fun hzero => hplain (.inr (.inr hzero))) hal howner
      cases wantGate with
      | true => exact Bool.false_ne_true (hgate.symm.trans hop)
      | false => exact Bool.false_ne_true (hwatch.symm.trans hop)

theorem fireAccountHook_of_unhooked {exec : CesServer → VmRunRequest → VmProgram} {s : CesServer} {key : Hash}
    (h : s.Unhooked key) (wantGate : Bool) (invokeKind : UInt64) (counterparty : Hash) (amount : UInt64) :
    fireAccountHook exec s key wantGate invokeKind counterparty amount = (true, s) := by
  unfold fireAccountHook
  rw [hookAlias_of_unhooked h]

/-- Every alias id in `a'` is one of `a`, for the same account. -/
def Accounts.KeepsAliases (a a' : Accounts) : Prop :=
  ∀ id acc', a'.find id = some acc' → acc'.aliasId = 0 ∨ ∃ acc, a.find id = some acc ∧ acc.aliasId = acc'.aliasId

namespace Accounts.KeepsAliases

variable {a a' a'' : Accounts}

theorem refl (a : Accounts) : a.KeepsAliases a := fun _ acc' h => .inr ⟨acc', h, rfl⟩

theorem trans (h : a.KeepsAliases a') (h' : a'.KeepsAliases a'') : a.KeepsAliases a'' := by
  intro id acc'' hacc''
  rcases h' id acc'' hacc'' with hzero | ⟨acc', hacc', heq⟩
  · exact .inl hzero
  · rcases h id acc' hacc' with hzero | ⟨acc, hacc, heq'⟩
    · exact .inl (heq ▸ hzero)
    · exact .inr ⟨acc, hacc, heq'.trans heq⟩

theorem put {id : HashPrefix} {acc : Account} (delta : Int)
    (h : acc.aliasId = 0 ∨ ∃ old, a.find id = some old ∧ old.aliasId = acc.aliasId) :
    a.KeepsAliases (a.put id acc delta) := by
  intro x acc' hacc'
  rw [find_put] at hacc'
  split_ifs at hacc' with hx
  · obtain rfl := Option.some.inj hacc'
    rw [hx]
    exact h
  · exact refl a x acc' hacc'

theorem drop (id : HashPrefix) (delta : Int) : a.KeepsAliases (a.drop id delta) := by
  intro x acc' hacc'
  rw [find_drop] at hacc'
  split_ifs at hacc' with hx
  exact refl a x acc' hacc'

theorem debitStamped {stamp : Account → Account} (hstamp : ∀ acc, (stamp acc).aliasId = acc.aliasId) (id : HashPrefix)
    (total : UInt64) : a.KeepsAliases (a.debitStamped id stamp total) := by
  unfold Accounts.debitStamped
  cases hacc : a.find id with
  | none => exact refl a
  | some acc =>
    dsimp only
    generalize int64 (acc.getBalance - asInt64 total) = newBal
    split_ifs
    · exact drop id _
    · refine put _ (.inr ⟨acc, hacc, ?_⟩)
      rw [hstamp]
      unfold Account.setBalance
      rfl

theorem payInto {id : HashPrefix} {dest : Account} {amount : UInt64} (hfind : a.find id = some dest)
    (h : a.payInto id dest amount = .ok a') (hsmall : (amount.toNat : Int) ≤ balanceMax) : a.KeepsAliases a' := by
  obtain ⟨acc, hacc, halias, -⟩ := find_payInto hfind h hsmall
  intro x acc' hacc'
  by_cases hx : x = id
  · rw [hx, hacc] at hacc'
    obtain rfl := Option.some.inj hacc'
    rw [hx]
    exact .inr ⟨dest, hfind, halias.symm⟩
  · rw [find_payInto_of_ne hx h] at hacc'
    exact .inr ⟨acc', hacc', rfl⟩

end Accounts.KeepsAliases

theorem CesServer.Unhooked.after {s t : CesServer} {key : Hash} (h : s.Unhooked key)
    (haccounts : s.accounts.KeepsAliases t.accounts) (haliases : t.aliases = s.aliases) : t.Unhooked key := by
  intro acc' al hacc' hne hal howner
  rcases haccounts _ acc' hacc' with hzero | ⟨acc, hacc, heq⟩
  · exact absurd hzero hne
  · rw [haliases, ← heq] at hal
    exact h acc al hacc (heq ▸ hne) hal howner

namespace TransferRequest

variable {r : TransferRequest} {s : CesServer}

theorem keepsAliases_move (hok : (r.move s).1 = .ok) :
    s.accounts.KeepsAliases (r.move s).2.accounts ∧ (r.move s).2.aliases = s.aliases := by
  have hstamp : ∀ acc, (Accounts.xferStamp r.destId r.amount r.time acc).aliasId = acc.aliasId := fun _ => rfl
  rcases r.move_cases s with hrefused | ⟨total, hopen, heq⟩ | ⟨dest, a, hpay, heq⟩
  · exact absurd hok hrefused.code
  · rw [heq]
    refine ⟨.trans (.put _ (.inl ?_)) (.debitStamped hstamp _ _), rfl⟩
    unfold newAccount
    split_ifs <;> rfl
  · rw [heq]
    exact ⟨.trans (.payInto hpay.found hpay.paid hpay.covers.amount_le) (.debitStamped hstamp _ _), rfl⟩

/-- Between accounts without hooks a transfer is its ledger part. -/
theorem transfer_unhooked (exec : CesServer → VmRunRequest → VmProgram) (horigin : s.Unhooked r.originKey)
    (hdest : s.Unhooked r.destKey) :
    (transfer exec s r).rcode = (r.move s).1 ∧ (transfer exec s r).server = (r.move s).2 := by
  unfold transfer
  by_cases hsafe : r.mode = .safe
  · have hgates : transferGates exec s r = (true, s) := by
      unfold transferGates
      rw [fireAccountHook_of_unhooked horigin]
      dsimp only
      rw [fireAccountHook_of_unhooked hdest, ite_self]
      rfl
    rw [if_pos hsafe, hgates]
    refine ⟨rfl, ?_⟩
    change (if (r.move s).1 = .ok then transferWatches exec (r.move s).2 r else (r.move s).2) = _
    split_ifs with hok
    · obtain ⟨haccounts, haliases⟩ := keepsAliases_move hok
      unfold transferWatches
      rw [fireAccountHook_of_unhooked (hdest.after haccounts haliases), ite_self]
      dsimp only
      rw [fireAccountHook_of_unhooked (horigin.after haccounts haliases)]
    · rfl
  · rw [if_neg hsafe]
    exact ⟨rfl, rfl⟩

/-- A deduction of `2 ^ 63` or more passes the signed comparison: the transfer succeeds. -/
theorem move_of_unsigned (hmode : r.mode ≠ .safe) (hmissing : s.accounts.find r.destId = none)
    (hroom : s.accounts.store.size < s.cfg.maxAcc)
    (hvalid : (s.accounts.validateSpend r.originId r.amount (r.flatFee s) r.providedNonce
      (s.errorFee r.errFee)).1 = .ok)
    (hfits : r.amount.toNat + (r.flatFee s).toNat + (r.creationCost s).toNat < 2 ^ 64)
    (hwide : 2 ^ 63 ≤ r.amount.toNat + (r.flatFee s).toNat + (r.creationCost s).toNat) : (r.move s).1 = .ok := by
  have hcovers := covers_of_valid hvalid
  have hadd := hcovers.toNat_add
  have hsum : (r.amount + r.flatFee s + r.creationCost s).toNat =
      r.amount.toNat + (r.flatFee s).toNat + (r.creationCost s).toNat := by
    rw [UInt64.toNat_add, hadd]
    exact Nat.mod_eq_of_lt hfits
  have hnegative : asInt64 (r.amount + r.flatFee s + r.creationCost s) < 0 := by
    rw [asInt64_of_ge (by omega)]
    omega
  have hnonneg := hcovers.nonneg
  have hwhole : (r.amount + r.flatFee s).toNat + (r.creationCost s).toNat < 2 ^ 64 := by omega
  have hopen := s.accounts.openTarget_of_fits r.destId r.newAccount (s.accounts.balance r.originId) hwhole (by omega)
    hcovers.amount_le
  exact congrArg Prod.fst (move_of_openTarget hvalid hmode hmissing hroom hopen)

/-- A transfer between accounts without hooks does exactly what it says, unless the cost of the account it opens takes
the deduction out of the signed range. -/
theorem transfer_exact_iff (exec : CesServer → VmRunRequest → VmProgram) (s : CesServer) (r : TransferRequest)
    (horigin : s.Unhooked r.originKey) (hdest : s.Unhooked r.destKey) :
    r.Exact s (transfer exec s r) ↔ r.SignedCost s := by
  obtain ⟨hcode, hserver⟩ := transfer_unhooked exec horigin hdest
  constructor
  · intro hexact hmode hmissing hroom hvalid hfits
    by_contra hwide
    have hok := move_of_unsigned hmode hmissing hroom hvalid hfits (Nat.le_of_not_lt hwide)
    have hne : r.originId ≠ r.destId := fun heq => (covers_of_valid hvalid).found (heq ▸ hmissing)
    -- the origin would end far below what 48 bits hold
    have hbalance := (hexact.moved (hcode.trans hok)).origin hne
    have hcost : r.openCost s = (r.creationCost s).toNat := if_pos hmissing
    have hlower := (transfer exec s r).server.accounts.balance_lower r.originId
    have hupper := s.accounts.balance_upper r.originId
    rw [hcost] at hbalance
    unfold balanceMin at hlower
    unfold balanceMax at hupper
    omega
  · intro hsigned
    rcases r.move_cases s with hrefused | ⟨total, hopen, heq⟩ | ⟨dest, a, hpay, heq⟩
    · refine ⟨fun hok => absurd (hcode.symm.trans hok) hrefused.code, fun _ => ?_⟩
      rw [hserver]
      exact refused_of_refusal hrefused
    · rw [heq] at hcode hserver
      refine ⟨fun _ => ?_, fun hne => absurd hcode hne⟩
      rw [hserver]
      have hvalid : (s.accounts.validateSpend r.originId r.amount (r.flatFee s) r.providedNonce
          (s.errorFee r.errFee)).1 = .ok := valid_of_spend (congrArg Prod.fst heq)
      have htotal := hopen.total_eq
      have hfits := total.toNat_lt
      exact moved_of_opening hopen
        (htotal ▸ hsigned hopen.mode hopen.missing hopen.room hvalid (htotal ▸ hfits))
    · rw [heq] at hcode hserver
      refine ⟨fun _ => ?_, fun hne => absurd hcode hne⟩
      rw [hserver]
      exact moved_of_paying hpay

end TransferRequest

/-! ### A deduction of three quarters of the range -/

def payerKey : Hash := ByteArr.ofList 32 (List.replicate 32 21)
def outsiderKey : Hash := ByteArr.ofList 32 (List.replicate 32 22)

/-- One account with a million, and the given daily fee of an account. -/
def payerServer (feeAccount : UInt64) : CesServer :=
  { CesServer.load { CesConfig.stock with feeAccount := feeAccount } (ByteArr.zero 32)
      ((∅ : FMap HashPrefix Account).insert (getHashPrefix payerKey) (.ofKey payerKey 1000000 0)) ∅ ∅ with
    verifySignature := fun _ _ _ => true }

/-- Ten credits to an account that is not there. -/
def openTen : TransferRequest where
  originKey := payerKey
  destKey := outsiderKey
  amount := 10
  mode := .openDest
  paymentDays := 0
  providedNonce := 0
  txFee := -1
  rentFee := -1
  errFee := -1
  time := 5

def noHooksExec (_ : CesServer) (_ : VmRunRequest) : VmProgram := .done ⟨.ok, 0, []⟩

theorem unhooked_of_no_aliases {s : CesServer} (h : s.aliases = ∅) (key : Hash) : s.Unhooked key := by
  intro acc al _ _ hal _
  rw [h] at hal
  exact nomatch hal

/-- At an ordinary fee the account is opened at its price. -/
theorem transfer_exact_iff_open_ten :
    openTen.Exact (payerServer 1000) (transfer noHooksExec (payerServer 1000) openTen) := by
  refine (TransferRequest.transfer_exact_iff noHooksExec (payerServer 1000) openTen (unhooked_of_no_aliases rfl _)
    (unhooked_of_no_aliases rfl _)).mpr ?_
  intro _ _ _ _ _
  decide +kernel

/-- A daily fee of `2 ^ 62` makes the account cost `3 * 2 ^ 62`, of which the payer is charged nothing. -/
theorem open_ten_below_cost :
    (payerServer 4611686018427387904).Unhooked openTen.originKey ∧
    (payerServer 4611686018427387904).Unhooked openTen.destKey ∧
    (openTen.creationCost (payerServer 4611686018427387904)).toNat = 3 * 2 ^ 62 ∧
    (transfer noHooksExec (payerServer 4611686018427387904) openTen).rcode = .ok ∧
    (transfer noHooksExec (payerServer 4611686018427387904) openTen).server.accounts.balance openTen.originId =
      1000000 - 10 - (openTen.flatFee (payerServer 4611686018427387904)).toNat ∧
    ¬ openTen.Exact (payerServer 4611686018427387904)
      (transfer noHooksExec (payerServer 4611686018427387904) openTen) := by
  have hcost : (openTen.creationCost (payerServer 4611686018427387904)).toNat = 3 * 2 ^ 62 := by decide +kernel
  have hok : (transfer noHooksExec (payerServer 4611686018427387904) openTen).rcode = .ok := by decide +kernel
  have hbalance : (transfer noHooksExec (payerServer 4611686018427387904) openTen).server.accounts.balance
      openTen.originId = 1000000 - 10 - (openTen.flatFee (payerServer 4611686018427387904)).toNat := by decide +kernel
  have hbefore : (payerServer 4611686018427387904).accounts.balance openTen.originId = 1000000 := by decide +kernel
  have hmissing : (payerServer 4611686018427387904).accounts.find openTen.destId = none := by decide +kernel
  refine ⟨unhooked_of_no_aliases rfl _, unhooked_of_no_aliases rfl _, hcost, hok, hbalance, fun hexact => ?_⟩
  have hpaid := (hexact.moved hok).origin (by decide +kernel)
  have hopen : openTen.openCost (payerServer 4611686018427387904) = 3 * 2 ^ 62 := (if_pos hmissing).trans hcost
  rw [hbalance, hbefore, hopen, Nat.add_assoc, Nat.cast_add] at hpaid
  omega

end Ces
