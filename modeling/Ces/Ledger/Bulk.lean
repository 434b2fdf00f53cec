import Ces.Ledger.Exact

/-!
# Bulk transfers

The stop-and-commit loop against single transfers: as far as the loop gets, it does what as many transfers in open mode
do, one after the other, but for the receipt, which a bulk transfer does not write. Two states that agree up to the
receipt of one account (`SameButReceipt`) stay so under every write of the two paths; `Follows` adds what the handle of
the loop holds.

The envelope itself costs nothing: its fee is validated, but no debit takes it.
-/

namespace Ces

open Ces.Lib CesServer

/-- The account without the receipt of its last transfer. -/
def Account.unstamped (acc : Account) : Account :=
  { acc with lastXferDest := ByteArr.zero 8, lastXferAmount := 0, lastXferTime := 0 }

/-- The receipt of its last transfer. -/
def Account.receipt (acc : Account) : HashPrefix × UInt64 × UInt32 :=
  (acc.lastXferDest, acc.lastXferAmount, acc.lastXferTime)

namespace Account

variable {acc acc' : Account}

theorem getBalance_unstamped (acc : Account) : acc.unstamped.getBalance = acc.getBalance := rfl

theorem unstamped_setBalance (acc : Account) (v : Int) : (acc.setBalance v).unstamped = acc.unstamped.setBalance v := by
  unfold setBalance
  rfl

theorem unstamped_setBalance_setNonce (acc : Account) (v : Int) (n : UInt32) :
    unstamped { acc.setBalance v with nonce := n } = { acc.unstamped.setBalance v with nonce := n } := by
  unfold setBalance
  rfl

theorem unstamped_xferStamp (acc : Account) (dest : HashPrefix) (amount : UInt64) (time : UInt32) :
    (Accounts.xferStamp dest amount time acc).unstamped = acc.unstamped := rfl

theorem getBalance_congr (h : acc.unstamped = acc'.unstamped) : acc.getBalance = acc'.getBalance := by
  rw [← getBalance_unstamped, h, getBalance_unstamped]

theorem getKey_congr (h : acc.unstamped = acc'.unstamped) (id : HashPrefix) : acc.getKey id = acc'.getKey id := by
  show acc.unstamped.getKey id = acc'.unstamped.getKey id
  rw [h]

theorem nonce_congr (h : acc.unstamped = acc'.unstamped) : acc.nonce = acc'.nonce := by
  show acc.unstamped.nonce = acc'.unstamped.nonce
  rw [h]

end Account

namespace Accounts

/-- The two stores differ at most in the receipt of `id`. -/
structure SameButReceipt (id : HashPrefix) (a a' : Accounts) : Prop where
  total : a.totalCredits = a'.totalCredits
  other : ∀ x, x ≠ id → a.find x = a'.find x
  self : (a.find id).map Account.unstamped = (a'.find id).map Account.unstamped

namespace SameButReceipt

variable {id x : HashPrefix} {a a' : Accounts} {acc acc' : Account}

theorem refl (id : HashPrefix) (a : Accounts) : SameButReceipt id a a := ⟨rfl, fun _ _ => rfl, rfl⟩

/-- What the two stores hold at one id. -/
theorem find_cases (h : SameButReceipt id a a') (x : HashPrefix) :
    (a.find x = none ∧ a'.find x = none) ∨
    ∃ acc acc', a.find x = some acc ∧ a'.find x = some acc' ∧ acc.unstamped = acc'.unstamped ∧
      (x ≠ id → acc = acc') := by
  by_cases hx : x = id
  · subst hx
    have hself := h.self
    cases hacc : a.find x with
    | none =>
      rw [hacc] at hself
      exact .inl ⟨rfl, Option.map_eq_none_iff.mp hself.symm⟩
    | some acc =>
      rw [hacc] at hself
      obtain ⟨acc', hacc', heq⟩ := Option.map_eq_some_iff.mp hself.symm
      exact .inr ⟨acc, acc', rfl, hacc', heq.symm, fun hne => absurd rfl hne⟩
  · have hsame := h.other x hx
    cases hacc : a.find x with
    | none => exact .inl ⟨rfl, hsame.symm.trans hacc⟩
    | some acc => exact .inr ⟨acc, acc, rfl, hsame.symm.trans hacc, rfl, fun _ => rfl⟩

theorem balance_eq (h : SameButReceipt id a a') (x : HashPrefix) : a.balance x = a'.balance x := by
  rcases h.find_cases x with ⟨hnone, hnone'⟩ | ⟨acc, acc', hacc, hacc', heq, -⟩
  · rw [balance_of_none hnone, balance_of_none hnone']
  · rw [balance_of_find hacc, balance_of_find hacc', Account.getBalance_congr heq]

theorem find_ne_none (h : SameButReceipt id a a') (x : HashPrefix) : a.find x ≠ none ↔ a'.find x ≠ none := by
  rcases h.find_cases x with ⟨hnone, hnone'⟩ | ⟨acc, acc', hacc, hacc', -, -⟩
  · rw [hnone, hnone']
  · rw [hacc, hacc']
    simp

theorem size_eq (h : SameButReceipt id a a') : a.store.size = a'.store.size :=
  Nat.le_antisymm (FMap.size_le_size fun x => (h.find_ne_none x).mp) (FMap.size_le_size fun x => (h.find_ne_none x).mpr)

/-! ### Writes -/

theorem put (h : SameButReceipt id a a') (delta : Int) (hself : acc.unstamped = acc'.unstamped)
    (hother : x ≠ id → acc = acc') : SameButReceipt id (a.put x acc delta) (a'.put x acc' delta) := by
  refine ⟨?_, fun y hy => ?_, ?_⟩
  · unfold Accounts.put
    rw [h.total]
  · rw [find_put, find_put]
    split_ifs with heq
    · rw [hother (heq ▸ hy)]
    · exact h.other y hy
  · rw [find_put, find_put]
    split_ifs
    · exact congrArg some hself
    · exact h.self

theorem drop (h : SameButReceipt id a a') (delta : Int) : SameButReceipt id (a.drop x delta) (a'.drop x delta) := by
  refine ⟨?_, fun y hy => ?_, ?_⟩
  · unfold Accounts.drop
    rw [h.total]
  · rw [find_drop, find_drop, h.other y hy]
  · rw [find_drop, find_drop]
    split_ifs
    · rfl
    · exact h.self

theorem createAccount (h : SameButReceipt id a a') (x : HashPrefix) (acc : Account) :
    SameButReceipt id (a.createAccount x acc) (a'.createAccount x acc) :=
  h.put _ rfl fun _ => rfl

/-- A debit of the account itself, whatever receipts the two sides write. -/
theorem debitStamped (h : SameButReceipt id a a') {stamp stamp' : Account → Account}
    (hstamp : ∀ acc, (stamp acc).unstamped = acc.unstamped) (hstamp' : ∀ acc, (stamp' acc).unstamped = acc.unstamped)
    (total : UInt64) : SameButReceipt id (a.debitStamped id stamp total) (a'.debitStamped id stamp' total) := by
  unfold Accounts.debitStamped
  rcases h.find_cases id with ⟨hnone, hnone'⟩ | ⟨acc, acc', hacc, hacc', heq, -⟩
  · rw [hnone, hnone']
    exact h
  · rw [hacc, hacc']
    dsimp only
    rw [Account.getBalance_congr heq, Account.nonce_congr heq]
    generalize int64 (acc'.getBalance - asInt64 total) = newBal
    split_ifs
    · exact h.drop _
    · refine h.put _ ?_ fun hne => absurd rfl hne
      rw [hstamp, hstamp', Account.unstamped_setBalance_setNonce, Account.unstamped_setBalance_setNonce, heq]

theorem chargeError (h : SameButReceipt id a a') (errFee : Int) :
    SameButReceipt id (a.chargeError id errFee) (a'.chargeError id errFee) := by
  unfold Accounts.chargeError
  rcases h.find_cases id with ⟨hnone, hnone'⟩ | ⟨acc, acc', hacc, hacc', heq, -⟩
  · rw [hnone, hnone']
    exact h
  · rw [hacc, hacc']
    dsimp only
    rw [Account.getBalance_congr heq]
    split_ifs
    · exact h
    · exact h.drop _
    · refine h.put _ ?_ fun hne => absurd rfl hne
      rw [Account.unstamped_setBalance, Account.unstamped_setBalance, heq]

theorem payInto (h : SameButReceipt id a a') {amount : UInt64} {b' : Accounts} (hacc' : a'.find x = some acc')
    (hpaid : a'.payInto x acc' amount = .ok b') :
    ∃ acc b, a.find x = some acc ∧ acc.unstamped = acc'.unstamped ∧ a.payInto x acc amount = .ok b ∧
      SameButReceipt id b b' := by
  rcases h.find_cases x with ⟨-, hnone⟩ | ⟨acc, acc'', hacc, hacc'', heq, hother⟩
  · rw [hacc'] at hnone
    cases hnone
  obtain rfl := Option.some.inj (hacc'.symm.trans hacc'')
  refine ⟨acc, ?_⟩
  unfold Accounts.payInto at hpaid ⊢
  rw [Account.getBalance_congr heq]
  split_ifs at hpaid ⊢ with hneg hwrong hroom
  · cases hpaid
    refine ⟨_, hacc, heq, rfl, ?_⟩
    unfold settlePayment
    rw [hacc, hacc']
    refine h.put _ ?_ fun hne => by rw [hother hne]
    rw [Account.unstamped_setBalance_setNonce, Account.unstamped_setBalance_setNonce, heq]
  · cases hpaid
    refine ⟨_, hacc, heq, rfl, ?_⟩
    unfold credit
    rw [hacc, hacc']
    dsimp only
    rw [Account.getBalance_congr heq]
    refine h.put _ ?_ fun hne => by rw [hother hne]
    rw [Account.unstamped_setBalance, Account.unstamped_setBalance, heq]

end SameButReceipt

end Accounts

/-! ### What the origin keeps -/

/-- The account at `id`, if it is still there, has its old receipt, and its nonce went up by `n`. -/
def Accounts.Keeps (a : Accounts) (id : HashPrefix) (n : Nat) (a' : Accounts) : Prop :=
  ∀ acc', a'.find id = some acc' →
    ∃ acc, a.find id = some acc ∧ acc'.receipt = acc.receipt ∧ acc'.nonce = acc.nonce + UInt32.ofNat n

namespace Accounts.Keeps

variable {a a' a'' : Accounts} {id x : HashPrefix} {n : Nat}

theorem refl (a : Accounts) (id : HashPrefix) : a.Keeps id 0 a := fun acc h => ⟨acc, h, rfl, (UInt32.add_zero _).symm⟩

theorem of_find (h : a.Keeps id n a') (heq : a''.find id = a'.find id) : a.Keeps id n a'' := fun acc hacc =>
  h acc (heq ▸ hacc)

theorem chargeError (h : a.Keeps id n a') (errFee : Int) : a.Keeps id n (a'.chargeError id errFee) := by
  intro acc'' hacc''
  unfold Accounts.chargeError at hacc''
  cases hacc' : a'.find id with
  | none =>
    rw [hacc'] at hacc''
    exact h acc'' hacc''
  | some acc' =>
    obtain ⟨acc, hacc, hreceipt, hnonce⟩ := h acc' hacc'
    rw [hacc'] at hacc''
    dsimp only at hacc''
    split_ifs at hacc''
    · exact h acc'' hacc''
    · rw [find_drop, if_pos rfl] at hacc''
      cases hacc''
    · rw [find_put, if_pos rfl] at hacc''
      obtain rfl := Option.some.inj hacc''
      exact ⟨acc, hacc, hreceipt, hnonce⟩

theorem debit (h : a.Keeps id n a') (total : UInt64) : a.Keeps id (n + 1) (a'.debit id total) := by
  intro acc'' hacc''
  unfold Accounts.debit Accounts.debitStamped at hacc''
  cases hacc' : a'.find id with
  | none =>
    rw [hacc'] at hacc''
    cases hacc'.symm.trans hacc''
  | some acc' =>
    obtain ⟨acc, hacc, hreceipt, hnonce⟩ := h acc' hacc'
    rw [hacc'] at hacc''
    dsimp only at hacc''
    generalize int64 (acc'.getBalance - asInt64 total) = newBal at hacc''
    split_ifs at hacc''
    · rw [find_drop, if_pos rfl] at hacc''
      cases hacc''
    · rw [find_put, if_pos rfl] at hacc''
      obtain rfl := Option.some.inj hacc''
      refine ⟨acc, hacc, hreceipt, ?_⟩
      change acc'.nonce + 1 = _
      rw [hnonce, UInt32.add_assoc, UInt32.ofNat_add]
      rfl

/-- The origin may itself be the account that is paid. -/
theorem payInto (h : a.Keeps id n a') {dest : Account} {amount : UInt64} (hfound : a'.find x = some dest)
    (hpaid : a'.payInto x dest amount = .ok a'') (hnonneg : x = id → 0 ≤ dest.getBalance) : a.Keeps id n a'' := by
  by_cases hx : id = x
  · subst hx
    obtain ⟨acc, hacc, hreceipt, hnonce⟩ := h dest hfound
    rcases payInto_cases hpaid with ⟨hneg, -, -⟩ | ⟨-, -, rfl⟩
    · have := hnonneg rfl
      omega
    · intro acc'' hacc''
      rw [credit_eq hfound, find_put, if_pos rfl] at hacc''
      obtain rfl := Option.some.inj hacc''
      exact ⟨acc, hacc, hreceipt, hnonce⟩
  · exact h.of_find (find_payInto_of_ne hx hpaid)

end Accounts.Keeps

/-! ### The loop against single transfers -/

section single

variable (exec : CesServer → VmRunRequest → VmProgram) (originKey : Hash) (txFee rentFee errFee : Int)

/-- One item as a transfer of its own. -/
def BulkTransferItem.single (it : BulkTransferItem) (time : UInt32) : TransferRequest where
  originKey := originKey
  destKey := it.destKey
  amount := it.amount
  mode := .openDest
  paymentDays := 0
  providedNonce := 0
  txFee := txFee
  rentFee := rentFee
  errFee := errFee
  time := time

/-- The items as transfers one after the other, each at its own time, as long as all of them succeed. -/
def openTransfers : CesServer → List (BulkTransferItem × UInt32) → Option CesServer
  | s, [] => some s
  | s, (it, time) :: rest =>
    let r := transfer exec s (it.single originKey txFee rentFee errFee time)
    if r.rcode = .ok then openTransfers r.server rest else none

end single

/-- A covered request without a nonce is valid. -/
theorem Accounts.Covers.valid {a : Accounts} {id : HashPrefix} {amount fee : UInt64} (h : a.Covers id amount fee)
    (errFee : Int) : (a.validateSpend id amount fee 0 errFee).1 = .ok := by
  have hcovered := h.covered
  have hfits := h.fits
  unfold validateSpend
  cases hfind : a.find id with
  | none => exact absurd hfind h.found
  | some acc =>
    rw [balance_of_find hfind] at hcovered
    dsimp only
    rw [if_neg (by omega), if_neg (by rw [h.toNat_add]; omega), if_neg (fun hnonce => hnonce.1 rfl)]

/-- The loop state `b` and the ledger `a` of the single transfers, `n` items into the request. -/
structure BulkState.Follows (s : CesServer) (origin : HashPrefix) (n : Nat) (b : BulkState) (a : Accounts) : Prop where
  server : b.server = { s with accounts := b.server.accounts }
  same : a.SameButReceipt origin b.server.accounts
  alive : b.alive = (b.server.accounts.find origin).isSome
  keeps : s.accounts.Keeps origin n b.server.accounts

namespace BulkState.Follows

variable {s : CesServer} {originKey : Hash} {n : Nat} {b b' : BulkState} {a : Accounts} {txFee rentFee errFee : Int}
  {it : BulkTransferItem}

theorem balance_eq {origin : HashPrefix} (h : b.Follows s origin n a) : b.balance origin = a.balance origin := by
  rw [h.same.balance_eq]
  unfold BulkState.balance
  rw [h.alive]
  split_ifs with hsome
  · rfl
  · exact (Accounts.balance_of_none (Option.not_isSome_iff_eq_none.mp hsome)).symm

/-- A handle that can pay is alive. -/
theorem there_of_covered {origin : HashPrefix} {total : Nat} (h : b.Follows s origin n a) (hpos : 0 < total)
    (hcovered : (total : Int) ≤ b.balance origin) : b.alive = true ∧ a.find origin ≠ none := by
  have halive : b.alive = true := by
    unfold BulkState.balance at hcovered
    split_ifs at hcovered with halive
    · exact halive
    · omega
  refine ⟨halive, (h.same.find_ne_none _).mpr ?_⟩
  exact Option.isSome_iff_ne_none.mp (h.alive.symm.trans halive)

/-- The write to the target, then the debit through the handle, against the same write and the stamped debit. -/
theorem debit {origin : HashPrefix} {w w' : Accounts} {stamp : Account → Account} (h : b.Follows s origin n a)
    (halive : b.alive = true) (hsame : w.SameButReceipt origin w') (hkeeps : s.accounts.Keeps origin n w')
    (hstamp : ∀ acc, (stamp acc).unstamped = acc.unstamped) (total : UInt64) :
    (b.debit origin w' total).Follows s origin (n + 1) (w.debitStamped origin stamp total) := by
  unfold BulkState.debit
  rw [if_pos halive]
  refine ⟨?_, hsame.debitStamped hstamp (fun _ => rfl) total, rfl, hkeeps.debit total⟩
  dsimp only
  rw [h.server]
  rfl

/-- An item that goes through, against the transfer of its own. -/
theorem item (h : b.Follows s (getHashPrefix originKey) n a)
    (hpos : 0 < (it.amount.toNat : Int) + s.discountedFlatFee txFee s.cfg.feeTx .tx)
    (hclean : BulkClean s rentFee) (time : UInt32)
    (hitem : b.item (getHashPrefix originKey) (asUInt64 (s.discountedFlatFee txFee s.cfg.feeTx .tx))
      (s.attenuatedFundCost .accountRent (resolveFee rentFee (asInt64 s.cfg.feeAccount)) 3 0) (s.errorFee errFee) it =
        .ok b') :
    ∃ a', (it.single originKey txFee rentFee errFee time).move { s with accounts := a } =
        (.ok, { s with accounts := a' }) ∧
      b'.Follows s (getHashPrefix originKey) (n + 1) a' := by
  have hfee := asUInt64_toNat_of_nonneg (s.discountedFlatFee_range txFee s.cfg.feeTx .tx).1
    (lt_trans (s.discountedFlatFee_range txFee s.cfg.feeTx .tx).2 (by norm_num))
  have hcfg : b.server.cfg = s.cfg := by
    rw [h.server]
  have hupper := a.balance_upper (getHashPrefix originKey)
  unfold balanceMax at hupper
  have hbalance := h.balance_eq
  rcases b.item_cases (getHashPrefix originKey) (s.errorFee errFee) it
      (flatFee_toNat_lt s txFee s.cfg.feeTx .tx) hclean with
    ⟨rc, b'', -, -, heq⟩ | ⟨total, hopens, heq⟩ | ⟨dest, w, hpays, heq⟩
  · cases heq.symm.trans hitem
  · obtain rfl := Except.ok.inj (heq.symm.trans hitem)
    have htotal := hopens.total_eq
    have hcovered := hopens.covered
    have hamount := hopens.amount_le
    obtain ⟨halive, hthere⟩ := h.there_of_covered (by omega) hcovered
    have hcovers : a.Covers (getHashPrefix originKey) it.amount
        (asUInt64 (s.discountedFlatFee txFee s.cfg.feeTx .tx)) :=
      ⟨hthere, by omega, by omega⟩
    have hadd := hcovers.toNat_add
    have hwhole : (it.amount + asUInt64 (s.discountedFlatFee txFee s.cfg.feeTx .tx)).toNat +
        (s.attenuatedFundCost .accountRent (resolveFee rentFee (asInt64 s.cfg.feeAccount)) 3 0).toNat < 2 ^ 64 := by
      omega
    have hsum : it.amount + asUInt64 (s.discountedFlatFee txFee s.cfg.feeTx .tx) +
        s.attenuatedFundCost .accountRent (resolveFee rentFee (asInt64 s.cfg.feeAccount)) 3 0 = total := by
      rw [← UInt64.toNat_inj, UInt64.toNat_add, hadd, htotal]
      exact Nat.mod_eq_of_lt (by omega)
    have hmissing : a.find (getHashPrefix it.destKey) = none :=
      not_not.mp (mt (h.same.find_ne_none _).mp (not_not.mpr hopens.missing))
    have hroom := hopens.room
    rw [hcfg, ← h.same.size_eq] at hroom
    have hopen := a.openTarget_of_fits (getHashPrefix it.destKey) (.ofKey it.destKey (asInt64 it.amount) 0)
      (a.balance (getHashPrefix originKey)) hwhole (by rw [hsum, asInt64_of_lt (by omega)]; omega) hamount
    rw [hsum] at hopen
    refine ⟨_, TransferRequest.move_of_openTarget (r := it.single originKey txFee rentFee errFee time)
      (s := { s with accounts := a }) (hcovers.valid _) nofun hmissing hroom hopen, ?_⟩
    have hne : getHashPrefix originKey ≠ getHashPrefix it.destKey := fun heq => hthere (heq ▸ hmissing)
    refine h.debit halive (h.same.createAccount _ _) (h.keeps.of_find ?_)
      (fun acc => acc.unstamped_xferStamp _ _ _) total
    exact Accounts.find_createAccount_of_ne _ hne
  · obtain rfl := Except.ok.inj (heq.symm.trans hitem)
    have hcovered := hpays.covered
    obtain ⟨halive, hthere⟩ := h.there_of_covered (by omega) hcovered
    have hcovers : a.Covers (getHashPrefix originKey) it.amount
        (asUInt64 (s.discountedFlatFee txFee s.cfg.feeTx .tx)) :=
      ⟨hthere, by omega, by omega⟩
    obtain ⟨acc, v, hacc, heqacc, hpaid, hsame⟩ := h.same.payInto hpays.found hpays.paid
    have hkey : acc.getKey (getHashPrefix it.destKey) = it.destKey :=
      (Account.getKey_congr heqacc _).trans hpays.key
    refine ⟨_, TransferRequest.move_of_payInto (r := it.single originKey txFee rentFee errFee time)
      (s := { s with accounts := a }) (hcovers.valid _) nofun hacc hkey hpaid, ?_⟩
    refine h.debit halive hsame (h.keeps.payInto hpays.found hpays.paid fun heq => ?_)
      (fun acc => acc.unstamped_xferStamp _ _ _) _
    have hself := Accounts.balance_of_find hacc
    rw [heq] at hself
    rw [← Account.getBalance_congr heqacc]
    omega

/-- The error fee leaves a ledger that follows the same fee on the other side. -/
theorem server_chargeError {origin : HashPrefix} (h : b.Follows s origin n a) (errFee : Int) :
    (b.chargeError origin errFee).server =
      { s with accounts := b.server.accounts.chargeError origin errFee } := by
  unfold BulkState.chargeError
  split_ifs with halive
  · rw [h.server]
    rfl
  · have hnone : b.server.accounts.find origin = none := by
      rw [h.alive] at halive
      exact Option.not_isSome_iff_eq_none.mp halive
    have hnoop : b.server.accounts.chargeError origin errFee = b.server.accounts := by
      unfold Accounts.chargeError
      rw [hnone]
    rw [hnoop]
    exact h.server

/-- The run lemma: as many single transfers as the loop counts, and the state it stops in. -/
theorem items (exec : CesServer → VmRunRequest → VmProgram) (hclean : BulkClean s rentFee) (errFee : Int)
    (timed : List (BulkTransferItem × UInt32))
    (hpos : ∀ p ∈ timed, 0 < (p.1.amount.toNat : Int) + s.discountedFlatFee txFee s.cfg.feeTx .tx)
    (h : b.Follows s (getHashPrefix originKey) n a) :
    ∃ k ≤ timed.length, ∃ a' b', ∃ rc stopped,
      BulkState.items (getHashPrefix originKey) (asUInt64 (s.discountedFlatFee txFee s.cfg.feeTx .tx))
        (s.attenuatedFundCost .accountRent (resolveFee rentFee (asInt64 s.cfg.feeAccount)) 3 0) (s.errorFee errFee) b
        (timed.map Prod.fst) = (rc, stopped, k) ∧
      openTransfers exec originKey txFee rentFee errFee { s with accounts := a } (timed.take k) =
        some { s with accounts := a' } ∧
      b'.Follows s (getHashPrefix originKey) (n + k) a' ∧
      (rc = .ok ∧ k = timed.length ∧ stopped = b' ∨
        rc ≠ .ok ∧ (stopped = b' ∨ stopped = b'.chargeError (getHashPrefix originKey) (s.errorFee errFee))) := by
  induction timed generalizing b a n with
  | nil => exact ⟨0, le_refl 0, a, b, .ok, b, rfl, rfl, h, .inl ⟨rfl, rfl, rfl⟩⟩
  | cons head rest ih =>
    obtain ⟨it, time⟩ := head
    rw [List.map_cons, BulkState.items]
    cases hitem : b.item (getHashPrefix originKey) (asUInt64 (s.discountedFlatFee txFee s.cfg.feeTx .tx))
        (s.attenuatedFundCost .accountRent (resolveFee rentFee (asInt64 s.cfg.feeAccount)) 3 0)
          (s.errorFee errFee) it with
    | error stop =>
      obtain ⟨rc, stopped⟩ := stop
      rcases b.item_cases (getHashPrefix originKey) (s.errorFee errFee) it
          (flatFee_toNat_lt s txFee s.cfg.feeTx .tx) hclean with
        ⟨rc', stopped', hrc, hstate, heq⟩ | ⟨total, -, heq⟩ | ⟨dest, w, -, heq⟩
      · cases heq.symm.trans hitem
        exact ⟨0, Nat.zero_le _, a, b, rc, stopped, rfl, rfl, h, .inr ⟨hrc, hstate⟩⟩
      · cases heq.symm.trans hitem
      · cases heq.symm.trans hitem
    | ok next =>
      obtain ⟨hhead, hrest⟩ := List.forall_mem_cons.mp hpos
      obtain ⟨a₁, hmove, hnext⟩ := h.item hhead hclean time hitem
      obtain ⟨k, hk, a', b', rc, stopped, hitems, htransfers, hfollows, hend⟩ := ih hrest hnext
      refine ⟨k + 1, Nat.succ_le_succ hk, a', b', rc, stopped, ?_, ?_, ?_, ?_⟩
      · dsimp only
        rw [hitems]
      · have htransfer : transfer exec { s with accounts := a } (it.single originKey txFee rentFee errFee time) =
            ⟨.ok, a₁.balance (getHashPrefix originKey), { s with accounts := a₁ }⟩ := by
          unfold transfer
          rw [if_neg (by exact nofun), hmove]
          rfl
        rw [List.take_succ_cons, openTransfers, htransfer]
        exact htransfers
      · rw [Nat.add_comm k 1, ← Nat.add_assoc]
        exact hfollows
      · rcases hend with ⟨hrc, hlength, hstopped⟩ | hstop
        · exact .inl ⟨hrc, congrArg (· + 1) hlength, hstopped⟩
        · exact .inr hstop

end BulkState.Follows

/-- `u` is `t` but for the receipt of the origin, which is that of `s`; the origin's nonce is that of `s` plus `n`. -/
structure BulkAgrees (s : CesServer) (origin : HashPrefix) (n : Nat) (t u : CesServer) : Prop where
  server : u = { t with accounts := u.accounts }
  same : t.accounts.SameButReceipt origin u.accounts
  keeps : s.accounts.Keeps origin n u.accounts

/-- What a bulk transfer of `len` items leaves when `n` of them went through: the state `t` of `n` single transfers, and
at most one error fee when it stopped. -/
structure BulkOutcome (s : CesServer) (origin : HashPrefix) (errFee : Int) (len n : Nat) (t : CesServer)
    (res : BulkTransferResult) : Prop where
  count : res.outSuccessfulCount = UInt8.ofNat n
  complete : res.rcode = .ok → n = len ∧ BulkAgrees s origin n t res.server
  stopped : res.rcode ≠ .ok →
    BulkAgrees s origin n t res.server ∨ BulkAgrees s origin n (t.chargeError origin errFee) res.server

/-- Every bulk transfer whose items cost something is as many single transfers as it counts. -/
theorem bulkTransfer_outcome (exec : CesServer → VmRunRequest → VmProgram) (s : CesServer) (originKey : Hash)
    (timed : List (BulkTransferItem × UInt32)) (providedNonce : UInt32) (txFee rentFee errFee : Int)
    (hpos : ∀ p ∈ timed, 0 < (p.1.amount.toNat : Int) + s.discountedFlatFee txFee s.cfg.feeTx .tx)
    (hclean : BulkClean s rentFee) :
    ∃ n ≤ timed.length, ∃ t, openTransfers exec originKey txFee rentFee errFee s (timed.take n) = some t ∧
      BulkOutcome s (getHashPrefix originKey) (s.errorFee errFee) timed.length n t
        (bulkTransfer s originKey (timed.map Prod.fst) providedNonce txFee rentFee errFee) := by
  have hsame := Accounts.SameButReceipt.refl (getHashPrefix originKey) s.accounts
  have hkeeps := Accounts.Keeps.refl s.accounts (getHashPrefix originKey)
  unfold bulkTransfer
  dsimp only
  generalize hres : BulkState.items _ _ _ _ _ _ = res
  rcases s.spendOr_cases (getHashPrefix originKey) 0 (asUInt64 (s.discountedFlatFee txFee s.cfg.feeTx .tx))
    providedNonce
      (s.errorFee errFee) (fun rc t => (⟨rc, t.accounts.balance (getHashPrefix originKey), 0, t⟩ : BulkTransferResult))
      ⟨res.1, res.2.1.balance (getHashPrefix originKey), UInt8.ofNat res.2.2, res.2.1.server⟩ with
    ⟨rc, hrc, heq | heq⟩ | ⟨heq, hcovers⟩
  · rw [heq]
    exact ⟨0, Nat.zero_le _, s, rfl, rfl, fun hok => absurd hok hrc, fun _ => .inl ⟨rfl, hsame, hkeeps⟩⟩
  · rw [heq]
    refine ⟨0, Nat.zero_le _, s, rfl, rfl, fun hok => absurd hok hrc, fun _ => .inr ⟨rfl, ?_, hkeeps.chargeError _⟩⟩
    exact .refl _ _
  · rw [heq]
    have hstart : BulkState.Follows s (getHashPrefix originKey) 0 ⟨s, true⟩ s.accounts :=
      ⟨rfl, hsame, (Option.isSome_iff_ne_none.mpr hcovers.found).symm, hkeeps⟩
    obtain ⟨k, hk, a', b', rc, stopped, hitems, htransfers, hfollows, hend⟩ :=
      hstart.items exec hclean errFee timed hpos
    rw [Nat.zero_add] at hfollows
    obtain rfl := hres.symm.trans hitems
    have hagrees : BulkAgrees s (getHashPrefix originKey) k { s with accounts := a' } b'.server :=
      ⟨hfollows.server, hfollows.same, hfollows.keeps⟩
    refine ⟨k, hk, _, htransfers, rfl, fun hok => ?_, fun hne => ?_⟩
    · rcases hend with ⟨-, hlength, rfl⟩ | ⟨hrc, -⟩
      · exact ⟨hlength, hagrees⟩
      · exact absurd hok hrc
    · rcases hend with ⟨hrc, -⟩ | ⟨-, rfl | rfl⟩
      · exact absurd hrc hne
      · exact .inl hagrees
      · have hcharged := hfollows.server_chargeError (s.errorFee errFee)
        refine .inr ⟨?_, ?_, ?_⟩
        · rw [hcharged]
          rfl
        · rw [hcharged]
          exact hfollows.same.chargeError _
        · rw [hcharged]
          exact hfollows.keeps.chargeError _

def bulkTen : BulkTransferItem := ⟨outsiderKey, 10⟩

/-- Two items, of which the first opens an account and the second pays into it. -/
theorem bulkTransfer_outcome_ten_twice :
    ∃ n ≤ 2, ∃ t, openTransfers noHooksExec payerKey (-1) (-1) (-1) (payerServer 1000)
        ([(bulkTen, 5), (bulkTen, 6)].take n) = some t ∧
      BulkOutcome (payerServer 1000) (getHashPrefix payerKey) ((payerServer 1000).errorFee (-1)) 2 n t
        (bulkTransfer (payerServer 1000) payerKey [bulkTen, bulkTen] 1 (-1) (-1) (-1)) :=
  bulkTransfer_outcome noHooksExec (payerServer 1000) payerKey [(bulkTen, 5), (bulkTen, 6)] 1 (-1) (-1) (-1)
    (by decide +kernel) (by unfold BulkClean; decide +kernel)

/-- An accepted request without items is free and leaves the nonce; one item costs what a single transfer costs, and
writes no receipt. -/
theorem bulk_envelope_free :
    0 < (bulkTen.amount.toNat : Int) + (payerServer 1000).discountedFlatFee (-1) (payerServer 1000).cfg.feeTx .tx ∧
    (bulkTransfer (payerServer 1000) payerKey [] 1 (-1) (-1) (-1)).rcode = .ok ∧
    (bulkTransfer (payerServer 1000) payerKey [] 1 (-1) (-1) (-1)).server.accounts.find (getHashPrefix payerKey) =
      (payerServer 1000).accounts.find (getHashPrefix payerKey) ∧
    (bulkTransfer (payerServer 1000) payerKey [bulkTen] 1 (-1) (-1) (-1)).outSuccessfulCount = 1 ∧
    (bulkTransfer (payerServer 1000) payerKey [bulkTen] 1 (-1) (-1) (-1)).server.accounts.balance
        (getHashPrefix payerKey) =
      (transfer noHooksExec (payerServer 1000) openTen).server.accounts.balance (getHashPrefix payerKey) ∧
    (bulkTransfer (payerServer 1000) payerKey [bulkTen] 1 (-1) (-1) (-1)).server.accounts.find
        (getHashPrefix payerKey) ≠
      (transfer noHooksExec (payerServer 1000) openTen).server.accounts.find (getHashPrefix payerKey) := by
  decide +kernel

end Ces
