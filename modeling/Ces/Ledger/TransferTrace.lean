import Ces.Ledger.Trace

/-!
# The touches of the transfers

Single, bulk and cross transfers. What they write to the target is a creation, a settlement or a credit whose
sign was tested (`payTouch`); the vostro account of a cross transfer is credited without that test.
-/

namespace Ces

open Ces.Lib CesServer

/-! ### The target -/

/-- The write of `payInto`. -/
def payTouch (destId : HashPrefix) (dest : Account) (amount : UInt64) : Touch :=
  if dest.getBalance < 0 then .settle destId amount else .credit .transfer destId amount

section target

variable {s : CesServer} {a : Accounts} {destId : HashPrefix} {dest : Account} {amount : UInt64} (reg : Regime)

theorem touched_payInto (hdest : s.accounts.find destId = some dest)
    (hpaid : s.accounts.payInto destId dest amount = .ok a) :
    Touched reg s.cells [payTouch destId dest amount] { s with accounts := a }.cells := by
  unfold payTouch
  rcases Accounts.payInto_cases hpaid with ⟨hneg, howed, rfl⟩ | ⟨hnonneg, -, rfl⟩
  · rw [if_pos hneg]
    refine .of_act ⟨dest, hdest, by omega, hneg⟩ ?_
    exact congrArg (fun st => Cells.mk st s.assets s.aliases) (s.accounts.store_settlePayment _ _).symm
  · rw [if_neg (by omega)]
    refine .of_act (fun _ => ⟨dest, hdest, hnonneg⟩) ?_
    exact congrArg (fun st => Cells.mk st s.assets s.aliases) (s.accounts.store_credit _ _).symm

/-- A payment to an account takes nothing off another, nor off itself. -/
theorem payInto_covers {id : HashPrefix} {acc : Account} (hfind : s.accounts.find id = some acc)
    (hpaid : s.accounts.payInto destId dest amount = .ok a) (hdest : s.accounts.find destId = some dest) :
    ∃ acc', a.find id = some acc' ∧ acc.getBalance ≤ acc'.getBalance := by
  have hlow := dest.getBalance_lower
  suffices h : a.find id ≠ none ∧ s.accounts.balance id ≤ a.balance id by
    obtain ⟨acc', hacc'⟩ := Option.ne_none_iff_exists'.mp h.1
    refine ⟨acc', hacc', ?_⟩
    rw [← Accounts.balance_of_find hfind, ← Accounts.balance_of_find hacc']
    exact h.2
  rcases Accounts.payInto_cases hpaid with ⟨hneg, howed, rfl⟩ | ⟨hnonneg, hroom, rfl⟩
  · constructor
    · unfold Accounts.settlePayment
      rw [hdest]
      dsimp only
      rw [Accounts.find_put]
      split_ifs
      · exact Option.some_ne_none _
      · rw [hfind]
        exact Option.some_ne_none _
    · by_cases hmin : dest.getBalance = balanceMin
      · -- the one pending amount that does not fit: it stays the least balance there is
        by_cases hid : id = destId
        · rw [hid, Accounts.balance_of_find hdest, hmin]
          exact Accounts.balance_lower _ _
        · unfold Accounts.settlePayment
          rw [hdest]
          dsimp only
          rw [Accounts.balance_put, if_neg hid]
      · rw [Accounts.balance_settlePayment hdest (by unfold balanceMin balanceMax at *; omega)]
        split_ifs with hid
        · rw [hid, Accounts.balance_of_find hdest]
          omega
        · exact le_refl _
  · constructor
    · rw [Accounts.credit_eq hdest, Accounts.find_put]
      split_ifs
      · exact Option.some_ne_none _
      · rw [hfind]
        exact Option.some_ne_none _
    · rw [Accounts.balance_credit hdest]
      split_ifs with hid
      · rw [hid, Accounts.balance_of_find hdest]
        omega
      · exact le_refl _

/-- The creation of a missing target. -/
theorem touched_openTarget {key : Hash} {balance : Int} {nonce : UInt32} {held : Int}
    {totalDeduction creationCost total : UInt64} (hfree : s.accounts.find (getHashPrefix key) = none)
    (hroom : s.accounts.store.size < s.cfg.maxAcc)
    (hopened : s.accounts.openTarget held (getHashPrefix key) (.ofKey key balance nonce) amount totalDeduction
      creationCost = .ok (total, a)) :
    Touched s.regime s.cells [.create .transfer key balance nonce] { s with accounts := a }.cells := by
  obtain ⟨-, -, -, rfl⟩ := Accounts.openTarget_cases hopened
  exact .single ⟨.inr (.inr hfree), fun _ => hroom⟩

end target

/-- A debit with its receipt. -/
theorem touched_debitTransfer (reg : Regime) (s : CesServer) {id : HashPrefix} {total : UInt64} {acc : Account}
    (r : Receipt) (hfind : s.accounts.find id = some acc) (hcovered : asInt64 total ≤ acc.getBalance) :
    Touched reg s.cells [.debit id total (some r)]
      { s with accounts := s.accounts.debitTransfer id total r.dest r.amount r.time }.cells := by
  refine .of_act ⟨acc, hfind, hcovered⟩ ?_
  exact congrArg (fun st => Cells.mk st s.assets s.aliases) (s.accounts.store_debitTransfer _ _ r).symm

/-! ### Single transfers -/

namespace TransferRequest

variable (r : TransferRequest) (s : CesServer)

def newBalance : Int := if r.mode = .payment then -asInt64 r.amount else asInt64 r.amount

def newNonce : UInt32 := if r.mode = .payment then 1 + r.paymentDays.toUInt32 else 0

def receipt : Receipt := ⟨r.destId, r.amount, r.time⟩

theorem newAccount_eq : r.newAccount = .ofKey r.destKey r.newBalance r.newNonce := by
  unfold newAccount newBalance newNonce
  split_ifs <;> rfl

def moveTouches : List Touch :=
  let errFee := s.errorFee r.errFee
  s.spendTouches r.originId r.amount (r.flatFee s) r.providedNonce errFee <|
    match s.accounts.find r.destId with
    | none =>
      if r.mode = .safe then [.fine r.originId errFee]
      else if s.cfg.maxAcc ≤ s.accounts.store.size then []
      else
        match s.accounts.openTarget (s.accounts.balance r.originId) r.destId r.newAccount r.amount
            (r.amount + r.flatFee s) (r.creationCost s) with
        | .error _ => [.fine r.originId errFee]
        | .ok (total, _) =>
          [.create .transfer r.destKey r.newBalance r.newNonce, .debit r.originId total (some r.receipt)]
    | some dest =>
      if r.mode = .payment ∨ dest.getKey r.destId ≠ r.destKey then [.fine r.originId errFee]
      else
        match s.accounts.payInto r.destId dest r.amount with
        | .error _ => [.fine r.originId errFee]
        | .ok _ =>
          [payTouch r.destId dest r.amount, .debit r.originId (r.amount + r.flatFee s) (some r.receipt)]

variable {r s}

theorem touched_move : Touched s.regime s.cells (r.moveTouches s) (r.move s).2.cells := by
  unfold moveTouches move
  refine touched_spend fun hcovers => ?_
  obtain ⟨acc, hacc⟩ := Option.ne_none_iff_exists'.mp hcovers.found
  have hsum := hcovers.toNat_add
  have hcovered : asInt64 (r.amount + r.flatFee s) ≤ acc.getBalance := by
    rw [asInt64_of_lt (by rw [hsum]; exact hcovers.total_lt), hsum, ← Accounts.balance_of_find hacc]
    exact hcovers.covered
  cases hdest : s.accounts.find r.destId with
  | none =>
    dsimp only
    by_cases hsafe : r.mode = .safe
    · rw [if_pos hsafe, if_pos hsafe]
      exact touched_fine s.regime _
    rw [if_neg hsafe, if_neg hsafe]
    by_cases hfull : s.cfg.maxAcc ≤ s.accounts.store.size
    · rw [if_pos hfull, if_pos hfull]
      exact .nil _
    rw [if_neg hfull, if_neg hfull]
    cases hopen : s.accounts.openTarget (s.accounts.balance r.originId) r.destId r.newAccount r.amount
        (r.amount + r.flatFee s) (r.creationCost s) with
    | error rc => exact touched_fine s.regime _
    | ok opened =>
      obtain ⟨total, a⟩ := opened
      obtain ⟨-, htotal, -, ha⟩ := Accounts.openTarget_cases hopen
      rw [Accounts.balance_of_find hacc] at htotal
      -- the origin is there and the target is not, so they differ
      have hne : r.originId ≠ r.destId := fun h => by
        rw [h, hdest] at hacc
        cases hacc
      have hkept : a.find r.originId = some acc := by
        rw [ha, Accounts.createAccount, Accounts.find_put, if_neg hne]
        exact hacc
      rw [newAccount_eq] at hopen
      exact (touched_openTarget hdest (not_le.mp hfull) hopen).append
        (touched_debitTransfer s.regime { s with accounts := a } r.receipt hkept htotal)
  | some dest =>
    dsimp only
    by_cases hpayment : r.mode = .payment
    · rw [if_pos hpayment, if_pos (.inl hpayment)]
      exact touched_fine s.regime _
    rw [if_neg hpayment]
    by_cases hkey : dest.getKey r.destId ≠ r.destKey
    · rw [if_pos hkey, if_pos (.inr hkey)]
      exact touched_fine s.regime _
    rw [if_neg hkey, if_neg (by simp [hpayment, hkey])]
    cases hpaid : s.accounts.payInto r.destId dest r.amount with
    | error rc => exact touched_fine s.regime _
    | ok a =>
      obtain ⟨acc', hacc', hmore⟩ := payInto_covers hacc hpaid hdest
      exact (touched_payInto s.regime hdest hpaid).append
        (touched_debitTransfer s.regime { s with accounts := a } r.receipt hacc' (le_trans hcovered hmore))

end TransferRequest

section hooks

variable (exec : CesServer → VmRunRequest → VmProgram) (s : CesServer) (r : TransferRequest)

def gateTouches : List Touch :=
  let out := fireAccountHook exec s r.originKey true invokeHookXferOut r.destKey r.amount
  hookTouches exec s r.originKey true invokeHookXferOut r.destKey r.amount ++
    if !out.1 ∨ r.amount < s.hookFreeGrant then []
    else hookTouches exec out.2 r.destKey true invokeHookXferIn r.originKey r.amount

def watchTouches : List Touch :=
  if s.hookFreeGrant ≤ r.amount then
    hookTouches exec s r.destKey false invokeHookXferIn r.originKey r.amount ++
      hookTouches exec (fireAccountHook exec s r.destKey false invokeHookXferIn r.originKey r.amount).2 r.originKey
        false invokeHookXferOut r.destKey r.amount
  else hookTouches exec s r.originKey false invokeHookXferOut r.destKey r.amount

def transferTouches : List Touch :=
  if r.mode = .safe then
    let gated := transferGates exec s r
    gateTouches exec s r ++
      if !gated.1 then [.fine r.originId (s.errorFee r.errFee)]
      else
        let m := r.move gated.2
        r.moveTouches gated.2 ++ if m.1 = .ok then watchTouches exec m.2 r else []
  else r.moveTouches s

variable {exec s r} (reg : Regime)

theorem touched_gates : Touched reg s.cells (gateTouches exec s r) (transferGates exec s r).2.cells := by
  unfold gateTouches transferGates
  have hout : Touched reg s.cells (hookTouches exec s r.originKey true invokeHookXferOut r.destKey r.amount) _ :=
    touched_hook reg s r.originKey true invokeHookXferOut r.destKey r.amount
  dsimp only
  cases hrejected : (fireAccountHook exec s r.originKey true invokeHookXferOut r.destKey r.amount).1 with
  | false => simpa [hrejected] using hout
  | true =>
    by_cases hdust : r.amount < s.hookFreeGrant
    · simpa [hrejected, hdust] using hout
    · rw [if_neg (by simp [hdust]), if_neg (by simp), if_neg hdust]
      exact hout.append (touched_hook reg _ r.destKey true invokeHookXferIn r.originKey r.amount)

theorem touched_watches : Touched reg s.cells (watchTouches exec s r) (transferWatches exec s r).cells := by
  unfold watchTouches transferWatches
  dsimp only
  split_ifs
  · exact (touched_hook reg s r.destKey false invokeHookXferIn r.originKey r.amount).append
      (touched_hook reg _ r.originKey false invokeHookXferOut r.destKey r.amount)
  · exact touched_hook reg s r.originKey false invokeHookXferOut r.destKey r.amount

theorem fixed_transferGates : (transferGates exec s r).2.fixed = s.fixed := by
  unfold transferGates
  dsimp only
  have hout := fixed_fireAccountHook exec s r.originKey true invokeHookXferOut r.destKey r.amount
  split_ifs
  · exact hout
  · exact hout
  · exact (fixed_fireAccountHook exec _ r.destKey true invokeHookXferIn r.originKey r.amount).trans hout

theorem touched_transfer : Touched s.regime s.cells (transferTouches exec s r) (transfer exec s r).server.cells := by
  have hgates : (transferGates exec s r).2.regime = s.regime :=
    congrArg (fun f : CesConfig × Hash × KeyNames => (⟨f.1.maxAcc, f.1.maxAsset, false⟩ : Regime)) fixed_transferGates
  unfold transferTouches transfer
  by_cases hsafe : r.mode = .safe
  · rw [if_pos hsafe, if_pos hsafe]
    refine (touched_gates s.regime).append ?_
    dsimp only
    cases hgated : (transferGates exec s r).1 with
    | false => exact touched_fine s.regime _
    | true =>
      have hmove := TransferRequest.touched_move (r := r) (s := (transferGates exec s r).2)
      rw [hgates] at hmove
      simp only [Bool.not_true, Bool.false_eq_true, if_false]
      refine hmove.append ?_
      split_ifs
      · exact touched_watches s.regime
      · exact .nil _
  · rw [if_neg hsafe, if_neg hsafe]
    exact TransferRequest.touched_move

end hooks

/-! ### Bulk transfers -/

namespace BulkState

section

variable (b : BulkState) (origin : HashPrefix)

def fineTouches (errFee : Int) : List Touch := if b.alive then [.fine origin errFee] else []

def debitTouches (total : UInt64) : List Touch := if b.alive then [.debit origin total none] else []

def itemTouches (txFee creationCost : UInt64) (errFee : Int) (it : BulkTransferItem) : List Touch :=
  let destId := getHashPrefix it.destKey
  let a := b.server.accounts
  match a.find destId with
  | none =>
    if b.server.cfg.maxAcc ≤ a.store.size then []
    else
      match a.openTarget (b.balance origin) destId (.ofKey it.destKey (asInt64 it.amount) 0) it.amount
          (it.amount + txFee) creationCost with
      | .error _ => b.fineTouches origin errFee
      | .ok (total, _) => .create .transfer it.destKey (asInt64 it.amount) 0 :: b.debitTouches origin total
  | some dest =>
    if dest.getKey destId ≠ it.destKey ∨ b.balance origin < asInt64 (it.amount + txFee) then
      b.fineTouches origin errFee
    else
      match a.payInto destId dest it.amount with
      | .error _ => b.fineTouches origin errFee
      | .ok _ => payTouch destId dest it.amount :: b.debitTouches origin (it.amount + txFee)

def itemsTouches (txFee creationCost : UInt64) (errFee : Int) : BulkState → List BulkTransferItem → List Touch
  | _, [] => []
  | b, it :: rest =>
    b.itemTouches origin txFee creationCost errFee it ++
      match b.item origin txFee creationCost errFee it with
      | .error _ => []
      | .ok b' => itemsTouches txFee creationCost errFee b' rest

/-- The handle is alive only while its account is there. -/
def Live : Prop := b.alive = true → b.server.accounts.find origin ≠ none

/-- The state after an item, whether it stops the loop or not. -/
def after : Except (Rc × BulkState) BulkState → BulkState
  | .error (_, b) => b
  | .ok b => b

end

variable {b : BulkState} {origin : HashPrefix} {txFee creationCost : UInt64} {errFee : Int} (reg : Regime)

theorem touched_fine : Touched reg b.server.cells (b.fineTouches origin errFee)
    (b.chargeError origin errFee).server.cells := by
  unfold fineTouches chargeError
  split_ifs
  · exact CesServer.touched_fine reg errFee
  · exact .nil _

theorem touched_debit {a : Accounts} {total : UInt64}
    (hcovered : b.alive = true → ∃ acc, a.find origin = some acc ∧ asInt64 total ≤ acc.getBalance) :
    Touched reg { b.server with accounts := a }.cells (b.debitTouches origin total)
      (b.debit origin a total).server.cells := by
  unfold debitTouches debit
  dsimp only
  split_ifs with halive
  · obtain ⟨acc, hacc, hle⟩ := hcovered halive
    exact Ces.touched_debit reg { b.server with accounts := a } hacc hle
  · exact .nil _

theorem live_debit (a : Accounts) (total : UInt64) : (b.debit origin a total).Live origin := by
  unfold debit Live
  dsimp only
  split_ifs
  · exact Option.isSome_iff_ne_none.mp
  · exact fun hdead => absurd hdead (by decide)

theorem regime_debit (a : Accounts) (total : UInt64) : (b.debit origin a total).server.regime = b.server.regime := by
  unfold debit
  dsimp only
  split_ifs <;> rfl

theorem regime_chargeError : (b.chargeError origin errFee).server.regime = b.server.regime := by
  unfold chargeError
  split_ifs <;> rfl

/-- What the balance of a live handle reads. -/
theorem balance_of_live (hlive : b.Live origin) (halive : b.alive = true) :
    ∃ acc, b.server.accounts.find origin = some acc ∧ b.balance origin = acc.getBalance := by
  obtain ⟨acc, hacc⟩ := Option.ne_none_iff_exists'.mp (hlive halive)
  refine ⟨acc, hacc, ?_⟩
  unfold balance
  rw [if_pos halive, Accounts.balance_of_find hacc]

theorem touched_item (txFee creationCost : UInt64) (errFee : Int) (it : BulkTransferItem) (hlive : b.Live origin) :
    Touched b.server.regime b.server.cells (b.itemTouches origin txFee creationCost errFee it)
        (after (b.item origin txFee creationCost errFee it)).server.cells ∧
      (after (b.item origin txFee creationCost errFee it)).server.regime = b.server.regime ∧
      ∀ b', b.item origin txFee creationCost errFee it = .ok b' → b'.Live origin := by
  have hfine : ∀ rc, Touched b.server.regime b.server.cells (b.fineTouches origin errFee)
        (after (.error (rc, b.chargeError origin errFee))).server.cells ∧
      (after (.error (rc, b.chargeError origin errFee))).server.regime = b.server.regime ∧
      ∀ b', (Except.error (rc, b.chargeError origin errFee) : Except (Rc × BulkState) BulkState) = .ok b' →
        b'.Live origin :=
    fun rc => ⟨touched_fine _, regime_chargeError, fun b' h => nomatch h⟩
  have hdebited : ∀ {a : Accounts} {total : UInt64} {t : Touch},
      Touched b.server.regime b.server.cells [t] { b.server with accounts := a }.cells →
      (b.alive = true → ∃ acc, a.find origin = some acc ∧ asInt64 total ≤ acc.getBalance) →
      Touched b.server.regime b.server.cells (t :: b.debitTouches origin total)
          (after (.ok (b.debit origin a total))).server.cells ∧
        (after (.ok (b.debit origin a total))).server.regime = b.server.regime ∧
        ∀ b', (Except.ok (b.debit origin a total) : Except (Rc × BulkState) BulkState) = .ok b' →
          b'.Live origin := by
    intro a total t hwrite hcovered
    refine ⟨hwrite.append (touched_debit _ hcovered), regime_debit a total, fun b' hb' => ?_⟩
    cases hb'
    exact live_debit a total
  unfold itemTouches item
  dsimp only
  cases hdest : b.server.accounts.find (getHashPrefix it.destKey) with
  | none =>
    dsimp only
    by_cases hfull : b.server.cfg.maxAcc ≤ b.server.accounts.store.size
    · rw [if_pos hfull, if_pos hfull]
      exact ⟨.nil _, rfl, fun b' h => nomatch h⟩
    rw [if_neg hfull, if_neg hfull]
    cases hopen : b.server.accounts.openTarget (b.balance origin) (getHashPrefix it.destKey)
        (.ofKey it.destKey (asInt64 it.amount) 0) it.amount (it.amount + txFee) creationCost with
    | error rc => exact hfine rc
    | ok opened =>
      obtain ⟨total, a⟩ := opened
      refine hdebited (touched_openTarget hdest (not_le.mp hfull) hopen) fun halive => ?_
      obtain ⟨acc, hacc, hbal⟩ := balance_of_live hlive halive
      obtain ⟨-, htotal, -, rfl⟩ := Accounts.openTarget_cases hopen
      refine ⟨acc, ?_, hbal ▸ htotal⟩
      rw [Accounts.createAccount, Accounts.find_put, if_neg ?_]
      · exact hacc
      · intro hsame
        rw [hsame, hdest] at hacc
        cases hacc
  | some dest =>
    dsimp only
    by_cases hkey : dest.getKey (getHashPrefix it.destKey) ≠ it.destKey
    · rw [if_pos hkey, if_pos (.inl hkey)]
      exact hfine _
    rw [if_neg hkey]
    by_cases hpoor : b.balance origin < asInt64 (it.amount + txFee)
    · rw [if_pos hpoor, if_pos (.inr hpoor)]
      exact hfine _
    rw [if_neg hpoor, if_neg (not_or.mpr ⟨hkey, hpoor⟩)]
    cases hpaid : b.server.accounts.payInto (getHashPrefix it.destKey) dest it.amount with
    | error rc => exact hfine rc
    | ok a =>
      refine hdebited (touched_payInto _ hdest hpaid) fun halive => ?_
      obtain ⟨acc, hacc, hbal⟩ := balance_of_live hlive halive
      obtain ⟨acc', hacc', hmore⟩ := payInto_covers hacc hpaid hdest
      exact ⟨acc', hacc', le_trans (hbal ▸ not_lt.mp hpoor) hmore⟩

theorem touched_items (l : List BulkTransferItem) (hlive : b.Live origin) :
    Touched b.server.regime b.server.cells (itemsTouches origin txFee creationCost errFee b l)
      (items origin txFee creationCost errFee b l).2.1.server.cells := by
  induction l generalizing b with
  | nil => exact .nil _
  | cons it rest ih =>
    obtain ⟨htouched, hregime, hnext⟩ := touched_item txFee creationCost errFee it hlive
    unfold itemsTouches items
    cases hitem : b.item origin txFee creationCost errFee it with
    | error stop =>
      rw [hitem] at htouched
      obtain ⟨rc, b'⟩ := stop
      simpa [after] using htouched
    | ok b' =>
      rw [hitem] at htouched hregime
      have hrest := ih (hnext b' hitem)
      rw [show b'.server.regime = b.server.regime from hregime] at hrest
      exact htouched.append hrest

end BulkState

def bulkTransferTouches (s : CesServer) (originKey : Hash) (items : List BulkTransferItem) (providedNonce : UInt32)
    (txFee rentFee errFee : Int) : List Touch :=
  let origin := getHashPrefix originKey
  let fee := asUInt64 (s.discountedFlatFee txFee s.cfg.feeTx .tx)
  let cost := s.attenuatedFundCost .accountRent (CesServer.resolveFee rentFee (asInt64 s.cfg.feeAccount)) 3 0
  s.spendTouches origin 0 fee providedNonce (s.errorFee errFee)
    (BulkState.itemsTouches origin fee cost (s.errorFee errFee) ⟨s, true⟩ items)

theorem touched_bulkTransfer (s : CesServer) (originKey : Hash) (items : List BulkTransferItem)
    (providedNonce : UInt32) (txFee rentFee errFee : Int) :
    Touched s.regime s.cells (bulkTransferTouches s originKey items providedNonce txFee rentFee errFee)
      (bulkTransfer s originKey items providedNonce txFee rentFee errFee).server.cells := by
  unfold bulkTransferTouches bulkTransfer
  refine touched_spendOr (fun r : BulkTransferResult => r.server.cells) (fun _ _ => rfl) fun hcovers => ?_
  have hlive : BulkState.Live ⟨s, true⟩ (getHashPrefix originKey) := fun _ => hcovers.found
  exact BulkState.touched_items items hlive

/-! ### Cross transfers -/

/-- The write of `creditOrCreate`. -/
def creditOrCreateTouch (credit : CreditSource) (create : CreateSource) (a : Accounts) (key : Hash)
    (amount : UInt64) : Touch :=
  match a.find (getHashPrefix key) with
  | some _ => .credit credit (getHashPrefix key) amount
  | none => .create create key (asInt64 amount) 0

theorem touched_creditOrCreate (reg : Regime) (s : CesServer) (credit : CreditSource) (create : CreateSource)
    (hcredit : credit ≠ .transfer ∧ credit ≠ .work) (hcreate : create ≠ .transfer ∧ create ≠ .work) (key : Hash)
    (amount : UInt64) :
    Touched reg s.cells [creditOrCreateTouch credit create s.accounts key amount]
      { s with accounts := s.accounts.creditOrCreate key amount }.cells := by
  unfold creditOrCreateTouch Accounts.creditOrCreate
  cases hfind : s.accounts.find (getHashPrefix key) with
  | some acc =>
    refine .of_act (fun hsource => ?_) ?_
    · rcases hsource with hsource | hsource
      · exact absurd hsource hcredit.1
      · exact absurd hsource hcredit.2
    · exact congrArg (fun st => Cells.mk st s.assets s.aliases) (s.accounts.store_credit _ _).symm
  | none =>
    refine .single ⟨.inr (.inr hfind), fun hsource => ?_⟩
    rcases hsource with hsource | hsource
    · exact absurd hsource hcreate.1
    · exact absurd hsource hcreate.2

section cross

variable (exec : CesServer → VmRunRequest → VmProgram) (r : CrossTransferRequest)

def CrossTransferRequest.commitTouches (s : CesServer) (peerKey : Hash) (fee : UInt64) : List Touch :=
  .debit (getHashPrefix r.originKey) (r.amount + fee) (some ⟨getHashPrefix peerKey, r.amount, r.time⟩) ::
    creditOrCreateTouch .vostro .vostro (r.debited s peerKey fee) peerKey r.amount ::
    hookTouches exec (r.moved s peerKey fee) r.originKey false invokeHookSettleOut r.destKey r.amount

def crossTransferTouches (s : CesServer) : List Touch :=
  let origin := getHashPrefix r.originKey
  let errFee := s.errorFee r.errFee
  s.spendTouches origin r.amount (r.flatFee s) r.providedNonce errFee <|
    match s.findPeer r.destServer with
    | none => [.fine origin errFee]
    | some peer =>
      match s.settlementLoad r.destServer peer.ckey with
      | none => [.fine origin errFee]
      | some load =>
        if 95 ≤ load ∨ creditWouldOverflow (s.accounts.balance (getHashPrefix peer.ckey)) r.amount then
          [.fine origin errFee]
        else r.commitTouches exec s peer.ckey (r.flatFee s)

variable {exec r} (reg : Regime)

theorem touched_crossTransfer (s : CesServer) :
    Touched reg s.cells (crossTransferTouches exec r s) (crossTransfer exec r s).server.cells := by
  unfold crossTransferTouches crossTransfer
  refine touched_spendOr (fun r : TransferResult => r.server.cells) (fun _ _ => rfl) fun hcovers => ?_
  cases s.findPeer r.destServer with
  | none => exact CesServer.touched_fine reg _
  | some peer =>
    dsimp only
    cases s.settlementLoad r.destServer peer.ckey with
    | none => exact CesServer.touched_fine reg _
    | some load =>
      dsimp only
      by_cases hload : 95 ≤ load
      · rw [if_pos hload, if_pos (.inl hload)]
        exact CesServer.touched_fine reg _
      rw [if_neg hload]
      by_cases hroom : creditWouldOverflow (s.accounts.balance (getHashPrefix peer.ckey)) r.amount = true
      · rw [if_pos hroom, if_pos (.inr hroom)]
        exact CesServer.touched_fine reg _
      rw [if_neg hroom, if_neg (not_or.mpr ⟨hload, hroom⟩)]
      obtain ⟨acc, hacc⟩ := Option.ne_none_iff_exists'.mp hcovers.found
      have hsum := hcovers.toNat_add
      have hcovered : asInt64 (r.amount + r.flatFee s) ≤ acc.getBalance := by
        rw [asInt64_of_lt (by rw [hsum]; exact hcovers.total_lt), hsum, ← Accounts.balance_of_find hacc]
        exact hcovers.covered
      have hdebit := touched_debitTransfer reg s ⟨getHashPrefix peer.ckey, r.amount, r.time⟩ hacc hcovered
      have hvostro := touched_creditOrCreate reg { s with accounts := r.debited s peer.ckey (r.flatFee s) }
        .vostro .vostro (by decide) (by decide) peer.ckey r.amount
      exact hdebit.append (hvostro.append
        (touched_hook reg (r.moved s peer.ckey (r.flatFee s)) r.originKey false invokeHookSettleOut r.destKey
          r.amount))

end cross

end Ces
