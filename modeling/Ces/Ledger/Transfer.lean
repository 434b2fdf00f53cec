import Ces.Ledger.Spend
import Ces.Vm.Tally

/-!
# Transfers

`transfer` in its three modes, `bulkTransfer` and `crossTransfer`. What reaches the target is the same in
all of them: a missing account is created (`openTarget`), a pending payment is settled and any other account
is credited (`payInto`).

The tally survives every transfer, with two provisos. A creation cost is added after `validateSpend` and
compared as an `int64_t`, so it has to stay small (`OpenClean`); and a cross transfer credits the peer's
account whatever its sign (`CrossClean`).
-/

namespace Ces

open Ces.Lib

/-! ### The target -/

/-- Pay an existing account: settle it when it is a pending payment of exactly that amount. -/
def Accounts.payInto (a : Accounts) (destId : HashPrefix) (dest : Account) (amount : UInt64) :
    Except Rc Accounts :=
  if dest.getBalance < 0 then
    if amount ≠ asUInt64 (-dest.getBalance) then .error .wrongPaymentAmount
    else .ok (a.settlePayment destId amount)
  else if creditWouldOverflow dest.getBalance amount then .error .balanceOverflow
  else .ok (a.credit destId amount)

/-- Create the target as `acc`, which raises the deduction by the creation cost. `balance` is what the
origin's handle reads. -/
def Accounts.openTarget (a : Accounts) (balance : Int) (destId : HashPrefix) (acc : Account)
    (amount totalDeduction creationCost : UInt64) : Except Rc (UInt64 × Accounts) :=
  if 2 ^ 64 ≤ totalDeduction.toNat + creationCost.toNat then .error .insufficientBalanceWithCreate
  else if balance < asInt64 (totalDeduction + creationCost) then .error .insufficientBalanceWithCreate
  else if creditWouldOverflow 0 amount then .error .balanceOverflow
  else .ok (totalDeduction + creationCost, a.createAccount destId acc)

/-! ### Single transfers -/

/-- `openDest` creates a missing target, `payment` creates it as a pending payment. -/
inductive TransferMode where
  | safe
  | openDest
  | payment
  deriving DecidableEq

/-- The arguments of `transfer`; a negative fee asks for the default. `time` is the clock, in seconds. -/
structure TransferRequest where
  originKey : Hash
  destKey : Hash
  amount : UInt64
  mode : TransferMode
  paymentDays : UInt8
  providedNonce : UInt32
  txFee : Int
  rentFee : Int
  errFee : Int
  time : UInt32

structure TransferResult where
  rcode : Rc
  outOriginBalance : Int
  server : CesServer

def invokeHookXferIn : UInt64 := 16
def invokeHookXferOut : UInt64 := 17
def invokeHookSettleOut : UInt64 := 35

namespace TransferRequest

variable (r : TransferRequest) (s : CesServer)

def originId : HashPrefix := getHashPrefix r.originKey
def destId : HashPrefix := getHashPrefix r.destKey

def flatFee : UInt64 := asUInt64 (s.discountedFlatFee r.txFee s.cfg.feeTx .tx)

/-- Days prepaid for a created account. -/
def createDays : UInt32 := if r.mode = .payment then 2 + r.paymentDays.toUInt32 else 3

def creationCost : UInt64 :=
  s.attenuatedFundCost .accountRent (CesServer.resolveFee r.rentFee (asInt64 s.cfg.feeAccount)) r.createDays 0

def newAccount : Account :=
  if r.mode = .payment then .ofKey r.destKey (-asInt64 r.amount) (1 + r.paymentDays.toUInt32)
  else .ofKey r.destKey (asInt64 r.amount) 0

/-- The transfer between its gates and its watches. -/
def move : Rc × CesServer :=
  let errFee := s.errorFee r.errFee
  s.spend r.originId r.amount (r.flatFee s) r.providedNonce errFee <|
    match s.accounts.find r.destId with
    | none =>
      if r.mode = .safe then s.refuse r.originId errFee .targetNotFound
      else if s.cfg.maxAcc ≤ s.accounts.store.size then (.internal, s)
      else
        match s.accounts.openTarget (s.accounts.balance r.originId) r.destId r.newAccount r.amount
            (r.amount + r.flatFee s) (r.creationCost s) with
        | .error rc => s.refuse r.originId errFee rc
        | .ok (total, a) =>
          (.ok, { s with accounts := a.debitTransfer r.originId total r.destId r.amount r.time })
    | some dest =>
      if r.mode = .payment then s.refuse r.originId errFee .invalidTargetAccount
      else if dest.getKey r.destId ≠ r.destKey then s.refuse r.originId errFee .wrongTargetAccount
      else
        match s.accounts.payInto r.destId dest r.amount with
        | .error rc => s.refuse r.originId errFee rc
        | .ok a =>
          (.ok, { s with
            accounts := a.debitTransfer r.originId (r.amount + r.flatFee s) r.destId r.amount r.time })

end TransferRequest

section hooks

variable (exec : CesServer → VmRunRequest → VmProgram)

/-- The gates of a safe transfer: the origin's, then the target's unless the amount is dust. -/
def transferGates (s : CesServer) (r : TransferRequest) : Bool × CesServer :=
  let out := fireAccountHook exec s r.originKey true invokeHookXferOut r.destKey r.amount
  if !out.1 then (false, out.2)
  else if r.amount < s.hookFreeGrant then (true, out.2)
  else fireAccountHook exec out.2 r.destKey true invokeHookXferIn r.originKey r.amount

/-- The watches of a safe transfer, fired once it stands. -/
def transferWatches (s : CesServer) (r : TransferRequest) : CesServer :=
  let s1 :=
    if s.hookFreeGrant ≤ r.amount then
      (fireAccountHook exec s r.destKey false invokeHookXferIn r.originKey r.amount).2
    else s
  (fireAccountHook exec s1 r.originKey false invokeHookXferOut r.destKey r.amount).2

def transfer (s : CesServer) (r : TransferRequest) : TransferResult :=
  if r.mode = .safe then
    let gated := transferGates exec s r
    if !gated.1 then
      let t := gated.2.chargeError r.originId (s.errorFee r.errFee)
      ⟨.hookRejected, t.accounts.balance r.originId, t⟩
    else
      let m := r.move gated.2
      ⟨m.1, m.2.accounts.balance r.originId, if m.1 = .ok then transferWatches exec m.2 r else m.2⟩
  else
    let m := r.move s
    -- a full store leaves the out parameter unwritten
    ⟨m.1, if m.1 = .internal then 0 else m.2.accounts.balance r.originId, m.2⟩

end hooks

/-! ### Bulk transfers -/

structure BulkTransferItem where
  destKey : Hash
  amount : UInt64
  deriving DecidableEq

/-- The loop state: the ledger, and whether the origin's handle still points at its account. A debit that
empties the account ends the handle for good, even when a later item creates the account again. -/
structure BulkState where
  server : CesServer
  alive : Bool

namespace BulkState

variable (b : BulkState) (origin : HashPrefix)

def balance : Int := if b.alive then b.server.accounts.balance origin else 0

def chargeError (errFee : Int) : BulkState :=
  if b.alive then { b with server := b.server.chargeError origin errFee } else b

/-- Debit through the handle; `a` holds the target's write. -/
def debit (a : Accounts) (total : UInt64) : BulkState :=
  let t : CesServer := { b.server with accounts := a }
  if b.alive then ⟨t.debit origin total, ((t.debit origin total).accounts.find origin).isSome⟩ else ⟨t, false⟩

/-- One item: the state after it, or the code that stops the loop. -/
def item (txFee creationCost : UInt64) (errFee : Int) (it : BulkTransferItem) : Except (Rc × BulkState) BulkState :=
  let destId := getHashPrefix it.destKey
  let a := b.server.accounts
  match a.find destId with
  | none =>
    if b.server.cfg.maxAcc ≤ a.store.size then .error (.internal, b)
    else
      match a.openTarget (b.balance origin) destId (.ofKey it.destKey (asInt64 it.amount) 0) it.amount
          (it.amount + txFee) creationCost with
      | .error rc => .error (rc, b.chargeError origin errFee)
      | .ok (total, a') => .ok (b.debit origin a' total)
  | some dest =>
    if dest.getKey destId ≠ it.destKey then .error (.wrongTargetAccount, b.chargeError origin errFee)
    else if b.balance origin < asInt64 (it.amount + txFee) then
      .error (.insufficientBalance, b.chargeError origin errFee)
    else
      match a.payInto destId dest it.amount with
      | .error rc => .error (rc, b.chargeError origin errFee)
      | .ok a' => .ok (b.debit origin a' (it.amount + txFee))

/-- Stop and commit: the code, the state and how many items went through. -/
def items (txFee creationCost : UInt64) (errFee : Int) : BulkState → List BulkTransferItem → Rc × BulkState × Nat
  | b, [] => (.ok, b, 0)
  | b, it :: rest =>
    match b.item origin txFee creationCost errFee it with
    | .error (rc, b') => (rc, b', 0)
    | .ok b' =>
      let r := items txFee creationCost errFee b' rest
      (r.1, r.2.1, r.2.2 + 1)

end BulkState

structure BulkTransferResult where
  rcode : Rc
  outOriginBalance : Int
  outSuccessfulCount : UInt8
  server : CesServer

def bulkTransfer (s : CesServer) (originKey : Hash) (items : List BulkTransferItem) (providedNonce : UInt32)
    (txFee rentFee errFee : Int) : BulkTransferResult :=
  let origin := getHashPrefix originKey
  let fee := asUInt64 (s.discountedFlatFee txFee s.cfg.feeTx .tx)
  let cost := s.attenuatedFundCost .accountRent (CesServer.resolveFee rentFee (asInt64 s.cfg.feeAccount)) 3 0
  let r := BulkState.items origin fee cost (s.errorFee errFee) ⟨s, true⟩ items
  s.spendOr origin 0 fee providedNonce (s.errorFee errFee) (fun rc t => ⟨rc, t.accounts.balance origin, 0, t⟩)
    ⟨r.1, r.2.1.balance origin, UInt8.ofNat r.2.2, r.2.1.server⟩

/-! ### Cross transfers -/

structure CrossTransferRequest where
  originKey : Hash
  destKey : Hash
  amount : UInt64
  destServer : Bytes
  providedNonce : UInt32
  txFee : Int
  errFee : Int
  time : UInt32

def CesServer.findPeer (s : CesServer) (address : Bytes) : Option PeerEntry :=
  s.peerTable.find? fun p => p.declaredAddress == address && p.reachable

/-- Credit an account, creating it when it is missing. -/
def Accounts.creditOrCreate (a : Accounts) (key : Hash) (amount : UInt64) : Accounts :=
  match a.find (getHashPrefix key) with
  | some _ => a.credit (getHashPrefix key) amount
  | none => a.createAccount (getHashPrefix key) (.ofKey key (asInt64 amount) 0)

section cross

variable (exec : CesServer → VmRunRequest → VmProgram)

variable (r : CrossTransferRequest)

/-- The origin debited. -/
def CrossTransferRequest.debited (s : CesServer) (peerKey : Hash) (fee : UInt64) : Accounts :=
  s.accounts.debitTransfer (getHashPrefix r.originKey) (r.amount + fee) (getHashPrefix peerKey) r.amount r.time

/-- Both sides of the local move: the origin debited, the peer's vostro account credited. -/
def CrossTransferRequest.moved (s : CesServer) (peerKey : Hash) (fee : UInt64) : CesServer :=
  { s with accounts := (r.debited s peerKey fee).creditOrCreate peerKey r.amount }

/-- The move, the watch it fires and the dispatch to the peer. -/
def CrossTransferRequest.commit (s : CesServer) (peerKey : Hash) (fee : UInt64) : TransferResult :=
  let watched :=
    (fireAccountHook exec (r.moved s peerKey fee) r.originKey false invokeHookSettleOut r.destKey r.amount).2
  ⟨.ok, (r.debited s peerKey fee).balance (getHashPrefix r.originKey),
    watched.emit (.settlement r.destServer peerKey r.destKey r.amount)⟩

def CrossTransferRequest.flatFee (s : CesServer) : UInt64 :=
  asUInt64 (s.discountedFlatFee r.txFee s.cfg.feeTx .tx)

def crossTransfer (s : CesServer) : TransferResult :=
  let origin := getHashPrefix r.originKey
  let errFee := s.errorFee r.errFee
  let failed (rc : Rc) (t : CesServer) : TransferResult := ⟨rc, t.accounts.balance origin, t⟩
  let charged (rc : Rc) := failed rc (s.chargeError origin errFee)
  s.spendOr origin r.amount (r.flatFee s) r.providedNonce errFee failed <|
    match s.findPeer r.destServer with
    | none => charged .unknownPeer
    | some peer =>
      match s.settlementLoad r.destServer peer.ckey with
      | none => charged .unknownPeer
      | some load =>
        if 95 ≤ load then charged .queueFull
        else if creditWouldOverflow (s.accounts.balance (getHashPrefix peer.ckey)) r.amount then
          charged .balanceOverflow
        else r.commit exec s peer.ckey (r.flatFee s)

end cross

/-! ### The tally -/

namespace Accounts

variable {a a' : Accounts} {destId : HashPrefix} {dest acc : Account} {amount : UInt64}

theorem payInto_cases (h : a.payInto destId dest amount = .ok a') :
    (dest.getBalance < 0 ∧ (amount.toNat : Int) = -dest.getBalance ∧ a' = a.settlePayment destId amount) ∨
    (0 ≤ dest.getBalance ∧ (amount.toNat : Int) ≤ balanceMax - dest.getBalance ∧ a' = a.credit destId amount) := by
  unfold payInto at h
  split_ifs at h with hneg hother hroom
  · cases h
    have hlow := dest.getBalance_lower
    rw [not_not] at hother
    refine .inl ⟨hneg, ?_, rfl⟩
    rw [hother]
    exact asUInt64_toNat_of_nonneg (by omega) (by unfold balanceMin at hlow; omega)
  · cases h
    simp only [creditWouldOverflow, Bool.and_eq_true, decide_eq_true_eq] at hroom
    exact .inr ⟨by omega, by omega, rfl⟩

theorem payInto_error {rc : Rc} (h : a.payInto destId dest amount = .error rc) : rc ≠ .ok := by
  unfold payInto at h
  split_ifs at h
  all_goals
    obtain rfl := Except.error.inj h
    decide

theorem openTarget_error {balance : Int} {totalDeduction creationCost : UInt64} {rc : Rc}
    (h : a.openTarget balance destId acc amount totalDeduction creationCost = .error rc) : rc ≠ .ok := by
  unfold openTarget at h
  split_ifs at h
  all_goals
    obtain rfl := Except.error.inj h
    decide

theorem openTarget_cases {balance : Int} {totalDeduction creationCost total : UInt64}
    (h : a.openTarget balance destId acc amount totalDeduction creationCost = .ok (total, a')) :
    total.toNat = totalDeduction.toNat + creationCost.toNat ∧ asInt64 total ≤ balance ∧
      (amount.toNat : Int) ≤ balanceMax ∧ a' = a.createAccount destId acc := by
  unfold openTarget at h
  split_ifs at h with hwide hpoor hroom
  cases h
  simp only [creditWouldOverflow, Bool.and_eq_true, decide_eq_true_eq] at hroom
  refine ⟨?_, by omega, by omega, rfl⟩
  rw [UInt64.toNat_add]
  exact Nat.mod_eq_of_lt (by omega)

theorem balance_settlePayment (hfind : a.find destId = some dest) (hsmall : (amount.toNat : Int) ≤ balanceMax)
    (x : HashPrefix) :
    (a.settlePayment destId amount).balance x = if x = destId then (amount.toNat : Int) else a.balance x := by
  have hlt : amount.toNat < 2 ^ 63 := by
    unfold balanceMax at hsmall
    omega
  have hstored : wrap48 (asInt64 amount) = amount.toNat := by
    rw [asInt64_of_lt hlt]
    exact wrap48_of_range (by unfold balanceMin; omega) hsmall
  unfold settlePayment
  rw [hfind]
  dsimp only
  rw [balance_put, Account.getBalance_setNonce, Account.getBalance_setBalance, hstored]

/-- Paying an account keeps the tally and makes no balance negative. -/
theorem tallied_payInto (h : a.Tallied) (hfind : a.find destId = some dest)
    (hpay : a.payInto destId dest amount = .ok a') (hsmall : (amount.toNat : Int) ≤ balanceMax) :
    a'.Tallied ∧ ∀ id, 0 ≤ a.balance id → 0 ≤ a'.balance id := by
  have hbal := balance_of_find hfind
  rcases payInto_cases hpay with ⟨hneg, -, rfl⟩ | ⟨hnonneg, -, rfl⟩
  · refine ⟨tallied_settlePayment h (by omega) hsmall, fun id hid => ?_⟩
    rw [balance_settlePayment hfind hsmall]
    split_ifs <;> omega
  · refine ⟨tallied_credit h (.inl (by omega)), fun id hid => ?_⟩
    rw [balance_credit hfind]
    split_ifs with hx
    · unfold balanceMax
      omega
    · exact hid

/-- So does creating a missing account, whose own balance is not that of anyone else. -/
theorem tallied_openTarget {origin : HashPrefix} (acc : Account) (h : a.Tallied)
    (hmissing : a.find destId = none) (hne : origin ≠ destId) :
    (a.createAccount destId acc).Tallied ∧
      (a.createAccount destId acc).balance origin = a.balance origin := by
  refine ⟨tallied_createAccount h (le_of_eq (balance_of_none hmissing)), ?_⟩
  unfold createAccount
  rw [balance_put, if_neg hne]

end Accounts

theorem flatFee_toNat_lt (s : CesServer) (passedFee : Int) (defaultFee : UInt64) (k : FeeKind) :
    (asUInt64 (s.discountedFlatFee passedFee defaultFee k)).toNat < 2 ^ 51 := by
  have hrange := s.discountedFlatFee_range passedFee defaultFee k
  have hcast := asUInt64_toNat_of_nonneg hrange.1 (by omega)
  omega

/-- The creation cost of a transfer is one an `int64_t` comparison can judge. -/
def TransferRequest.OpenClean (r : TransferRequest) (s : CesServer) : Prop := (r.creationCost s).toNat < 2 ^ 62

theorem TransferRequest.tallied_move {r : TransferRequest} {s : CesServer}
    (hclean : r.mode ≠ .safe → r.OpenClean s) (htally : s.accounts.Tallied) : (r.move s).2.accounts.Tallied := by
  have hcharged := CesServer.tallied_chargeError htally s r.originId r.errFee
  have hupper := s.accounts.balance_upper r.originId
  unfold TransferRequest.move
  refine CesServer.spend_rule (P := fun t => t.accounts.Tallied) htally hcharged fun hcovers => ?_
  have hcovered := hcovers.covered
  have htotal := hcovers.toNat_add
  cases hdest : s.accounts.find r.destId with
  | none =>
    dsimp only
    split_ifs with hsafe
    · exact hcharged
    · exact htally
    · split
      · exact hcharged
      · rename_i total a hopen
        have hcost := hclean hsafe
        obtain ⟨hsum, -, -, rfl⟩ := Accounts.openTarget_cases hopen
        have hne : r.originId ≠ r.destId := by
          intro heq
          exact hcovers.found (heq ▸ hdest)
        obtain ⟨hopened, hbal⟩ := Accounts.tallied_openTarget r.newAccount htally hdest hne
        unfold TransferRequest.OpenClean at hcost
        unfold balanceMax at hupper
        have hsmall : total.toNat < 2 ^ 63 := by omega
        exact Accounts.tallied_debitTransfer hopened hsmall (hbal ▸ hcovers.nonneg) _ _ _
  | some dest =>
    dsimp only
    split_ifs
    · exact hcharged
    · exact hcharged
    · split
      · exact hcharged
      · rename_i a hpay
        obtain ⟨hpaid, hnonneg⟩ := Accounts.tallied_payInto htally hdest hpay (by omega)
        have hsmall : (r.amount + r.flatFee s).toNat < 2 ^ 63 := by
          rw [htotal]
          exact hcovers.total_lt
        exact Accounts.tallied_debitTransfer hpaid hsmall (hnonneg _ hcovers.nonneg) _ _ _

section cleanHooks

variable (exec : CesServer → VmRunRequest → VmProgram)

/-- The gates that a transfer fires run clean. -/
def GatesClean (s : CesServer) (r : TransferRequest) : Prop :=
  HookClean exec s r.originKey true invokeHookXferOut r.destKey r.amount ∧
    (s.hookFreeGrant ≤ r.amount →
      HookClean exec (fireAccountHook exec s r.originKey true invokeHookXferOut r.destKey r.amount).2
        r.destKey true invokeHookXferIn r.originKey r.amount)

/-- So do its watches. -/
def WatchesClean (s : CesServer) (r : TransferRequest) : Prop :=
  if s.hookFreeGrant ≤ r.amount then
    HookClean exec s r.destKey false invokeHookXferIn r.originKey r.amount ∧
      HookClean exec (fireAccountHook exec s r.destKey false invokeHookXferIn r.originKey r.amount).2
        r.originKey false invokeHookXferOut r.destKey r.amount
  else HookClean exec s r.originKey false invokeHookXferOut r.destKey r.amount

structure TransferClean (s : CesServer) (r : TransferRequest) : Prop where
  opened : r.mode ≠ .safe → r.OpenClean s
  gates : r.mode = .safe → GatesClean exec s r
  watches : r.mode = .safe → WatchesClean exec (r.move (transferGates exec s r).2).2 r

variable {exec} {s : CesServer} {r : TransferRequest}

theorem tallied_transferGates (hclean : GatesClean exec s r) (htally : s.accounts.Tallied) :
    (transferGates exec s r).2.accounts.Tallied := by
  have hout := tallied_fireAccountHook hclean.1 htally
  unfold transferGates
  dsimp only
  split_ifs with hrejected hdust
  · exact hout
  · exact hout
  · exact tallied_fireAccountHook (hclean.2 (UInt64.not_lt.mp hdust)) hout

theorem tallied_transferWatches (hclean : WatchesClean exec s r) (htally : s.accounts.Tallied) :
    (transferWatches exec s r).accounts.Tallied := by
  unfold transferWatches
  unfold WatchesClean at hclean
  split_ifs at hclean with hdust
  · rw [if_pos hdust]
    exact tallied_fireAccountHook hclean.2 (tallied_fireAccountHook hclean.1 htally)
  · rw [if_neg hdust]
    exact tallied_fireAccountHook hclean htally

theorem tallied_transfer (hclean : TransferClean exec s r) (htally : s.accounts.Tallied) :
    (transfer exec s r).server.accounts.Tallied := by
  unfold transfer
  by_cases hmode : r.mode = .safe
  · have hgated := tallied_transferGates (hclean.gates hmode) htally
    have hmoved : (r.move (transferGates exec s r).2).2.accounts.Tallied :=
      TransferRequest.tallied_move (fun hne => absurd hmode hne) hgated
    rw [if_pos hmode]
    dsimp only
    split_ifs
    · exact CesServer.tallied_chargeError hgated s _ _
    · exact tallied_transferWatches (hclean.watches hmode) hmoved
    · exact hmoved
  · rw [if_neg hmode]
    exact TransferRequest.tallied_move hclean.opened htally

end cleanHooks

namespace BulkState

variable {b b' : BulkState} {origin : HashPrefix} {txFee creationCost : UInt64} {errFee : Int}

/-- What the loop keeps: the tally, and a live handle on a non-negative account. -/
structure Sound (b : BulkState) (origin : HashPrefix) : Prop where
  tallied : b.server.accounts.Tallied
  live : b.alive = true → b.server.accounts.find origin ≠ none ∧ 0 ≤ b.server.accounts.balance origin

theorem tallied_chargeError (h : b.Sound origin) (hfee : 0 ≤ errFee) (hfee64 : errFee < 2 ^ 63) :
    (b.chargeError origin errFee).server.accounts.Tallied := by
  unfold chargeError
  split_ifs
  · exact Accounts.tallied_chargeError h.tallied hfee hfee64
  · exact h.tallied

theorem sound_debit {a : Accounts} {total : UInt64} (ha : a.Tallied)
    (hnonneg : b.alive = true → 0 ≤ a.balance origin ∧ total.toNat < 2 ^ 63) :
    (b.debit origin a total).Sound origin := by
  unfold debit
  dsimp only
  split_ifs with halive
  · obtain ⟨hbal, hsmall⟩ := hnonneg halive
    refine ⟨Accounts.tallied_debit ha hsmall hbal, fun hfound => ⟨?_, ?_⟩⟩
    · exact Option.isSome_iff_ne_none.mp hfound
    · exact Accounts.balance_debit_nonneg hsmall hbal
  · exact ⟨ha, fun h => by cases h⟩

/-- The item opens its target. -/
structure Opens (b : BulkState) (origin : HashPrefix) (txFee creationCost : UInt64) (it : BulkTransferItem)
    (total : UInt64) : Prop where
  missing : b.server.accounts.find (getHashPrefix it.destKey) = none
  room : b.server.accounts.store.size < b.server.cfg.maxAcc
  amount_le : (it.amount.toNat : Int) ≤ balanceMax
  total_eq : total.toNat = it.amount.toNat + txFee.toNat + creationCost.toNat
  covered : (total.toNat : Int) ≤ b.balance origin

/-- The item pays an account that is there. -/
structure Pays (b : BulkState) (origin : HashPrefix) (txFee : UInt64) (it : BulkTransferItem) (dest : Account)
    (a : Accounts) : Prop where
  found : b.server.accounts.find (getHashPrefix it.destKey) = some dest
  key : dest.getKey (getHashPrefix it.destKey) = it.destKey
  paid : b.server.accounts.payInto (getHashPrefix it.destKey) dest it.amount = .ok a
  total_eq : (it.amount + txFee).toNat = it.amount.toNat + txFee.toNat
  covered : ((it.amount.toNat + txFee.toNat : Nat) : Int) ≤ b.balance origin

/-- What one item does: it stops the loop, at most at the price of the error fee, or it goes through covered. -/
theorem item_cases (b : BulkState) (origin : HashPrefix) (errFee : Int) (it : BulkTransferItem)
    (htx : txFee.toNat < 2 ^ 51) (hcost : creationCost.toNat < 2 ^ 62) :
    (∃ rc b', rc ≠ Rc.ok ∧ (b' = b ∨ b' = b.chargeError origin errFee) ∧
      b.item origin txFee creationCost errFee it = .error (rc, b')) ∨
    (∃ total, b.Opens origin txFee creationCost it total ∧
      b.item origin txFee creationCost errFee it = .ok (b.debit origin (b.server.accounts.createAccount
        (getHashPrefix it.destKey) (.ofKey it.destKey (asInt64 it.amount) 0)) total)) ∨
    (∃ dest a, b.Pays origin txFee it dest a ∧
      b.item origin txFee creationCost errFee it = .ok (b.debit origin a (it.amount + txFee))) := by
  unfold item
  dsimp only
  cases hdest : b.server.accounts.find (getHashPrefix it.destKey) with
  | none =>
    dsimp only
    by_cases hfull : b.server.cfg.maxAcc ≤ b.server.accounts.store.size
    · rw [if_pos hfull]
      exact .inl ⟨.internal, b, nofun, .inl rfl, rfl⟩
    rw [if_neg hfull]
    cases hopen : b.server.accounts.openTarget (b.balance origin) (getHashPrefix it.destKey)
        (.ofKey it.destKey (asInt64 it.amount) 0) it.amount (it.amount + txFee) creationCost with
    | error rc => exact .inl ⟨rc, _, Accounts.openTarget_error hopen, .inr rfl, rfl⟩
    | ok opened =>
      obtain ⟨total, a⟩ := opened
      obtain ⟨htotal, hsigned, hamount, rfl⟩ := Accounts.openTarget_cases hopen
      have hsum : (it.amount + txFee).toNat = it.amount.toNat + txFee.toNat := by
        rw [UInt64.toNat_add]
        unfold balanceMax at hamount
        exact Nat.mod_eq_of_lt (by omega)
      refine .inr (.inl ⟨total, ⟨hdest, Nat.lt_of_not_le hfull, hamount, by omega, ?_⟩, rfl⟩)
      unfold balanceMax at hamount
      rwa [asInt64_of_lt (by omega)] at hsigned
  | some dest =>
    dsimp only
    by_cases hkey : dest.getKey (getHashPrefix it.destKey) ≠ it.destKey
    · rw [if_pos hkey]
      exact .inl ⟨.wrongTargetAccount, _, nofun, .inr rfl, rfl⟩
    rw [if_neg hkey]
    -- the cast is named: reducing it would unroll the 64-bit modulus
    generalize hcast : asInt64 (it.amount + txFee) = signedTotal
    by_cases hpoor : b.balance origin < signedTotal
    · rw [if_pos hpoor]
      exact .inl ⟨.insufficientBalance, _, nofun, .inr rfl, rfl⟩
    rw [if_neg hpoor]
    cases hpay : b.server.accounts.payInto (getHashPrefix it.destKey) dest it.amount with
    | error rc => exact .inl ⟨rc, _, Accounts.payInto_error hpay, .inr rfl, rfl⟩
    | ok a =>
      -- the target's own room bounds the amount, so the sum with the fee is exact
      have hamount : (it.amount.toNat : Int) ≤ 2 ^ 47 := by
        have hlow := dest.getBalance_lower
        unfold balanceMin at hlow
        rcases Accounts.payInto_cases hpay with ⟨_, heq, -⟩ | ⟨_, hle, -⟩
        · omega
        · unfold balanceMax at hle
          omega
      have hsum : (it.amount + txFee).toNat = it.amount.toNat + txFee.toNat := by
        rw [UInt64.toNat_add]
        exact Nat.mod_eq_of_lt (by omega)
      refine .inr (.inr ⟨dest, a, ⟨hdest, not_not.mp hkey, hpay, hsum, ?_⟩, rfl⟩)
      rw [asInt64_of_lt (by omega), hsum] at hcast
      omega

theorem balance_le_max (b : BulkState) (origin : HashPrefix) : b.balance origin ≤ balanceMax := by
  unfold balance
  split_ifs
  · exact b.server.accounts.balance_upper origin
  · decide

/-- One item keeps the loop invariant when it goes through, and the tally when it stops. -/
theorem sound_item (it : BulkTransferItem) (h : b.Sound origin) (htx : txFee.toNat < 2 ^ 51)
    (hcost : creationCost.toNat < 2 ^ 62) (hfee : 0 ≤ errFee) (hfee64 : errFee < 2 ^ 63) :
    match b.item origin txFee creationCost errFee it with
    | .ok b' => b'.Sound origin
    | .error (_, b') => b'.server.accounts.Tallied := by
  have hupper := b.balance_le_max origin
  unfold balanceMax at hupper
  rcases b.item_cases origin errFee it htx hcost with
    ⟨rc, b', -, hstopped, heq⟩ | ⟨total, hopens, heq⟩ | ⟨dest, a, hpays, heq⟩
  · rw [heq]
    rcases hstopped with rfl | rfl
    · exact h.tallied
    · exact tallied_chargeError h hfee hfee64
  · rw [heq]
    have hcovered := hopens.covered
    refine sound_debit (Accounts.tallied_createAccount h.tallied ?_) fun halive => ?_
    · exact le_of_eq (Accounts.balance_of_none hopens.missing)
    · obtain ⟨hfound, hnonneg⟩ := h.live halive
      have hne : origin ≠ getHashPrefix it.destKey := fun heq => hfound (heq ▸ hopens.missing)
      obtain ⟨-, hbal⟩ := Accounts.tallied_openTarget (.ofKey it.destKey (asInt64 it.amount) 0) h.tallied
        hopens.missing hne
      exact ⟨hbal ▸ hnonneg, by omega⟩
  · rw [heq]
    have hcovered := hpays.covered
    have htotal := hpays.total_eq
    obtain ⟨hpaid, hkeeps⟩ := Accounts.tallied_payInto h.tallied hpays.found hpays.paid (by unfold balanceMax; omega)
    exact sound_debit hpaid fun halive => ⟨hkeeps _ (h.live halive).2, by omega⟩

theorem tallied_items {l : List BulkTransferItem} (h : b.Sound origin) (htx : txFee.toNat < 2 ^ 51)
    (hcost : creationCost.toNat < 2 ^ 62) (hfee : 0 ≤ errFee) (hfee64 : errFee < 2 ^ 63) :
    (items origin txFee creationCost errFee b l).2.1.server.accounts.Tallied := by
  induction l generalizing b with
  | nil => exact h.tallied
  | cons it rest ih =>
    have hitem := sound_item it h htx hcost hfee hfee64
    unfold items
    cases hres : b.item origin txFee creationCost errFee it with
    | error stopped =>
      rw [hres] at hitem
      exact hitem
    | ok b' =>
      rw [hres] at hitem
      exact ih hitem

end BulkState

/-- The creation cost of each account a bulk transfer opens. -/
def BulkClean (s : CesServer) (rentFee : Int) : Prop :=
  (s.attenuatedFundCost .accountRent (CesServer.resolveFee rentFee (asInt64 s.cfg.feeAccount)) 3 0).toNat < 2 ^ 62

theorem tallied_bulkTransfer {s : CesServer} {originKey : Hash} {items : List BulkTransferItem}
    {providedNonce : UInt32} {txFee rentFee errFee : Int} (hclean : BulkClean s rentFee)
    (htally : s.accounts.Tallied) :
    (bulkTransfer s originKey items providedNonce txFee rentFee errFee).server.accounts.Tallied := by
  have hcharged := CesServer.tallied_chargeError htally s (getHashPrefix originKey) errFee
  have hrange := s.discountedFlatFee_range errFee s.cfg.feeQuery .query
  unfold bulkTransfer
  refine CesServer.spendOr_rule (P := fun res : BulkTransferResult => res.server.accounts.Tallied) (fun _ => htally)
    (fun _ => hcharged) fun hcovers => ?_
  have hsound : BulkState.Sound ⟨s, true⟩ (getHashPrefix originKey) :=
    ⟨htally, fun _ => ⟨hcovers.found, hcovers.nonneg⟩⟩
  have hfee64 : s.errorFee errFee < 2 ^ 63 := lt_trans hrange.2 (by norm_num)
  exact BulkState.tallied_items hsound (flatFee_toNat_lt s _ _ _) hclean hrange.1 hfee64

theorem Accounts.tallied_creditOrCreate {a : Accounts} {key : Hash} {amount : UInt64} (h : a.Tallied)
    (hnonneg : 0 ≤ a.balance (getHashPrefix key) ∨ amount = 0) : (a.creditOrCreate key amount).Tallied := by
  unfold creditOrCreate
  cases hfind : a.find (getHashPrefix key) with
  | none => exact tallied_createAccount h (le_of_eq (balance_of_none hfind))
  | some acc => exact tallied_credit h hnonneg

/-- The peer's vostro account is no pending payment, and the watch runs clean. -/
structure CrossClean (exec : CesServer → VmRunRequest → VmProgram) (r : CrossTransferRequest) (s : CesServer)
    (peerKey : Hash) : Prop where
  vostro : 0 ≤ s.accounts.balance (getHashPrefix peerKey) ∨ r.amount = 0
  watch : HookClean exec (r.moved s peerKey (r.flatFee s)) r.originKey false invokeHookSettleOut r.destKey
    r.amount

theorem tallied_crossTransfer {exec : CesServer → VmRunRequest → VmProgram} {r : CrossTransferRequest}
    {s : CesServer} (hclean : ∀ peer, s.findPeer r.destServer = some peer → CrossClean exec r s peer.ckey)
    (htally : s.accounts.Tallied) : (crossTransfer exec r s).server.accounts.Tallied := by
  have hcharged := CesServer.tallied_chargeError htally s (getHashPrefix r.originKey) r.errFee
  unfold crossTransfer
  refine CesServer.spendOr_rule (P := fun res : TransferResult => res.server.accounts.Tallied) (fun _ => htally)
    (fun _ => hcharged) fun hcovers => ?_
  cases hpeer : s.findPeer r.destServer with
  | none => exact hcharged
  | some peer =>
    dsimp only
    cases s.settlementLoad r.destServer peer.ckey with
    | none => exact hcharged
    | some load =>
      dsimp only
      split_ifs
      · exact hcharged
      · exact hcharged
      · obtain ⟨hvostro, hwatch⟩ := hclean peer hpeer
        have hsmall : (r.amount + r.flatFee s).toNat < 2 ^ 63 := by
          rw [hcovers.toNat_add]
          exact hcovers.total_lt
        have hcovered : ((r.amount + r.flatFee s).toNat : Int) ≤ s.accounts.balance (getHashPrefix r.originKey) := by
          rw [hcovers.toNat_add]
          exact hcovers.covered
        have hdebited : (r.debited s peer.ckey (r.flatFee s)).Tallied :=
          Accounts.tallied_debitTransfer htally hsmall hcovers.nonneg _ _ _
        have hmoved : (r.moved s peer.ckey (r.flatFee s)).accounts.Tallied := by
          refine Accounts.tallied_creditOrCreate hdebited (hvostro.imp_left fun hnonneg => ?_)
          unfold CrossTransferRequest.debited
          rw [Accounts.balance_debitTransfer hsmall hcovered]
          split_ifs
          · omega
          · exact hnonneg
        exact tallied_fireAccountHook hwatch hmoved

end Ces
