import Ces.Ledger.History
import Ces.Ledger.Keyed

/-!
# The escrow of an L2 call

The value of a call waits in the server's own account. The first report releases it, by a transfer that costs nothing
but may fail: the release is exact when the transfer would go through (`Clears`), and otherwise the value stays with the
server, the call being resolved all the same. Later reports find the call resolved and change nothing.
-/

namespace Ces

open Ces.Lib CesServer

/-! ### Transfers without fees -/

theorem CesServer.discountedFlatFee_zero (s : CesServer) (defaultFee : UInt64) (k : FeeKind) :
    s.discountedFlatFee 0 defaultFee k = 0 := by
  have hnothing : asUInt64 0 = 0 := by decide
  have hfee : s.discountFee k 0 = 0 := if_pos rfl
  rw [discountedFlatFee_eq, resolveFee, if_neg (lt_irrefl 0), hnothing, hfee]
  rfl

theorem CesServer.attenuatedFundCost_zero (s : CesServer) (k : FeeKind) (daysAdded daysHeld : UInt32) :
    s.attenuatedFundCost k 0 daysAdded daysHeld = 0 := by
  unfold attenuatedFundCost computePrepayCost
  exact if_pos (.inr rfl)

/-- Who has the means, and needs no nonce, may go on. -/
theorem CesServer.spend_of_covers {s : CesServer} {origin : HashPrefix} {amount fee : UInt64} {errFee : Int}
    {next : Rc × CesServer} (h : s.accounts.Covers origin amount fee) :
    s.spend origin amount fee Accounts.nonceless errFee next = next := by
  obtain ⟨acc, hfind⟩ := Option.ne_none_iff_exists'.mp h.found
  have hcovered := h.covered
  rw [Accounts.balance_of_find hfind] at hcovered
  have hsum := h.toNat_add
  have hfits := h.fits
  have hvalid : s.accounts.validateSpend origin amount fee Accounts.nonceless errFee = (.ok, s.accounts) := by
    unfold Accounts.validateSpend
    rw [hfind]
    dsimp only
    rw [if_neg (by omega), hsum, if_neg (by omega), if_neg (fun hnonce => hnonce.2.1 rfl)]
  unfold spend spendOr
  rw [hvalid]

namespace Accounts

variable {amount : UInt64}

/-- Who has the value can open an account with it, when that costs nothing. -/
theorem openTarget_of_covered {a : Accounts} {id destId : HashPrefix} {acc : Account}
    (h : (amount.toNat : Int) ≤ a.balance id) :
    a.openTarget (a.balance id) destId acc amount amount 0 = .ok (amount, a.createAccount destId acc) := by
  have hmax := h.trans (a.balance_upper id)
  have hsmall : amount.toNat < 2 ^ 63 := by
    unfold balanceMax at hmax
    omega
  have hroom : ¬creditWouldOverflow 0 amount = true := by
    simp only [creditWouldOverflow, Bool.and_eq_true, decide_eq_true_eq]
    omega
  have hlt : ¬2 ^ 64 ≤ amount.toNat + (0 : UInt64).toNat := not_le.mpr amount.toNat_lt
  unfold openTarget
  rw [UInt64.add_zero, asInt64_of_lt hsmall, if_neg hlt, if_neg (not_lt.mpr h), if_neg hroom]

/-- An account takes what settles it, or what it has room for. -/
theorem payInto_of_room (a : Accounts) (destId : HashPrefix) {dest : Account}
    (h : if dest.getBalance < 0 then (amount.toNat : Int) = -dest.getBalance
      else dest.getBalance + amount.toNat ≤ balanceMax) : ∃ a', a.payInto destId dest amount = .ok a' := by
  unfold payInto
  by_cases hneg : dest.getBalance < 0
  · rw [if_pos hneg] at h ⊢
    have hlow := dest.getBalance_lower
    have hamount : amount = asUInt64 (-dest.getBalance) := by
      have hbalance := asUInt64_toNat_of_nonneg (v := -dest.getBalance) (by omega) (by unfold balanceMin at hlow; omega)
      refine UInt64.toNat_inj.mp ?_
      omega
    exact ⟨_, if_neg (not_not.mpr hamount)⟩
  · rw [if_neg hneg] at h ⊢
    have hroom : ¬creditWouldOverflow dest.getBalance amount = true := by
      simp only [creditWouldOverflow, Bool.and_eq_true, decide_eq_true_eq]
      omega
    exact ⟨_, if_neg hroom⟩

end Accounts

namespace L2Escrow

variable (e : L2Escrow) (rep : L2CallReport) (s : CesServer)

/-- The value went from `before` to `after`: it was added, or it settled a pending payment. -/
def Released (value : UInt64) (before after : Int) : Prop :=
  after = before + value.toNat ∨ (before = -value.toNat ∧ after = value.toNat)

/-- What the resolution of a call owes. A value that goes to the server itself stays where it is. -/
structure Settled (t : CesServer) : Prop where
  paid : e.target rep ≠ s.serverKey →
    Released e.call.value (s.accounts.keyed (e.target rep)) (t.accounts.keyed (e.target rep))
  others : ∀ id, id ≠ getHashPrefix (e.target rep) → id ≠ getHashPrefix s.serverKey →
    t.accounts.find id = s.accounts.find id
  pending : t.l2PendingCount = s.l2PendingCount - 1

/-- A transfer of the value between two accounts goes through: the server still holds it, and the target can take
it. -/
def Lands : Prop :=
  getHashPrefix (e.target rep) ≠ getHashPrefix s.serverKey ∧
    (e.call.value.toNat : Int) ≤ s.accounts.balance (getHashPrefix s.serverKey) ∧
    match s.accounts.find (getHashPrefix (e.target rep)) with
    | none => s.accounts.store.size < s.cfg.maxAcc
    | some acc =>
      acc.getKey (getHashPrefix (e.target rep)) = e.target rep ∧
        if acc.getBalance < 0 then (e.call.value.toNat : Int) = -acc.getBalance
        else acc.getBalance + e.call.value.toNat ≤ balanceMax

/-- There is nothing to move, or the move goes through. -/
def Clears : Prop := e.target rep = s.serverKey ∨ e.call.value = 0 ∨ e.Lands rep s

variable {e rep s} {time : UInt32}

theorem flatFee_settlement : (e.settlement rep s time).flatFee s = 0 := by
  have hnothing : asUInt64 0 = 0 := by decide
  change asUInt64 (s.discountedFlatFee 0 s.cfg.feeTx .tx) = 0
  rw [s.discountedFlatFee_zero, hnothing]

theorem creationCost_settlement : (e.settlement rep s time).creationCost s = 0 := s.attenuatedFundCost_zero _ _ _

theorem Released.refl_iff {value : UInt64} {b : Int} : Released value b b ↔ value = 0 := by
  have hzero : value = 0 ↔ value.toNat = 0 := by
    rw [← UInt64.toNat_inj]
    rfl
  unfold Released
  rw [hzero]
  omega

/-- A release of nothing. -/
theorem Released.of_zero {value : UInt64} {b : Int} (h : value = 0) : Released value b b := Released.refl_iff.mpr h

section landing

variable {a a' : Accounts} {key : Hash} {dest : Account} {amount : UInt64} {origin x : HashPrefix}

/-- A value that goes from an account to itself leaves its balance. -/
theorem keyed_round_trip (hfind : a.find (getHashPrefix key) = some dest)
    (hcovers : (amount.toNat : Int) ≤ dest.getBalance)
    (hpay : a.payInto (getHashPrefix key) dest amount = .ok a') :
    (a'.debitTransfer (getHashPrefix key) amount x amount time).keyed key = a.keyed key := by
  have hupper := dest.getBalance_upper
  rcases Accounts.payInto_cases hpay with ⟨hneg, -, -⟩ | ⟨-, hroom, rfl⟩
  · omega
  · have hsum : min balanceMax (dest.getBalance + amount.toNat) = dest.getBalance + amount.toNat :=
      min_eq_right (by omega)
    have hsmall : amount.toNat < 2 ^ 63 := by
      unfold balanceMax at hupper
      omega
    have hcredit : (a.credit (getHashPrefix key) amount).find (getHashPrefix key) =
        some (dest.setBalance (dest.getBalance + amount.toNat)) := by
      rw [Accounts.credit_eq hfind, Accounts.find_put, if_pos rfl, hsum]
    have hstored : (dest.setBalance (dest.getBalance + amount.toNat)).getBalance = dest.getBalance + amount.toNat := by
      rw [Account.getBalance_setBalance]
      exact wrap48_of_range (by unfold balanceMin; omega) (by omega)
    have hback : int64 (dest.getBalance + amount.toNat - asInt64 amount) = dest.getBalance := by
      rw [asInt64_of_lt hsmall, add_sub_cancel_right]
      unfold balanceMax at hupper
      exact int64_of_range (by omega) (by omega)
    unfold Accounts.debitTransfer Accounts.debitStamped
    rw [hcredit]
    dsimp only
    rw [hstored, hback]
    by_cases hgone : dest.getBalance ≤ 0
    · have hzero : dest.getBalance = 0 := by omega
      rw [if_pos hgone, Accounts.keyed_of_none ((Accounts.find_drop ..).trans (if_pos rfl))]
      by_cases hkey : dest.getKey (getHashPrefix key) = key
      · rw [Accounts.keyed_of_own hfind hkey, hzero]
      · rw [Accounts.keyed_of_other hfind hkey]
    · rw [if_neg hgone]
      refine Accounts.keyed_replace hfind ((Accounts.find_put ..).trans (if_pos rfl)) rfl ?_
      change ((dest.setBalance (dest.getBalance + amount.toNat)).setBalance dest.getBalance).getBalance =
        dest.getBalance
      rw [Account.getBalance_setBalance]
      exact wrap48_of_range dest.getBalance_lower hupper

theorem released_open (hne : getHashPrefix key ≠ origin) (hnone : a.find (getHashPrefix key) = none)
    (hmax : (amount.toNat : Int) ≤ balanceMax) (total : UInt64) :
    Released amount (a.keyed key)
      (((a.createAccount (getHashPrefix key) (.ofKey key (asInt64 amount) 0)).debitTransfer origin total x amount
        time).keyed key) := by
  have hsmall : amount.toNat < 2 ^ 63 := by
    unfold balanceMax at hmax
    omega
  have hafter : ((a.createAccount (getHashPrefix key) (.ofKey key (asInt64 amount) 0)).debitTransfer origin total x
      amount time).find (getHashPrefix key) = some (.ofKey key (asInt64 amount) 0) :=
    (Accounts.find_debitStamped_of_ne hne _ _).trans ((Accounts.find_put ..).trans (if_pos rfl))
  have hbalance : (Account.ofKey key (asInt64 amount) 0).getBalance = amount.toNat := by
    rw [Account.getBalance_ofKey, asInt64_of_lt hsmall]
    exact wrap48_of_range (by unfold balanceMin; omega) hmax
  rw [Accounts.keyed_of_none hnone, Accounts.keyed_of_own hafter (Account.getKey_ofKey _ _ _), hbalance]
  exact .inl (zero_add _).symm

theorem released_payInto (hne : getHashPrefix key ≠ origin) (hfind : a.find (getHashPrefix key) = some dest)
    (hkey : dest.getKey (getHashPrefix key) = key) (hpay : a.payInto (getHashPrefix key) dest amount = .ok a')
    (hmax : (amount.toNat : Int) ≤ balanceMax) (total : UInt64) :
    Released amount (a.keyed key) ((a'.debitTransfer origin total x amount time).keyed key) := by
  have hframe : (a'.debitTransfer origin total x amount time).keyed key = a'.keyed key :=
    Accounts.keyed_congr (Accounts.find_debitStamped_of_ne hne _ _)
  rw [hframe, Accounts.keyed_of_own hfind hkey]
  rcases Accounts.payInto_cases hpay with ⟨hneg, hamount, rfl⟩ | ⟨hnonneg, hroom, rfl⟩
  · have hafter : (a.settlePayment (getHashPrefix key) amount).find (getHashPrefix key) =
        some { dest.setBalance (asInt64 amount) with nonce := 0 } := by
      unfold Accounts.settlePayment
      rw [hfind]
      exact (Accounts.find_put ..).trans (if_pos rfl)
    have hown : { dest.setBalance (asInt64 amount) with nonce := 0 }.getKey (getHashPrefix key) = key := by
      rw [Account.getKey_setNonce, Account.getKey_setBalance, hkey]
    rw [Accounts.keyed_of_own hafter hown, ← Accounts.balance_of_find hafter, Accounts.balance_settlePayment hfind hmax,
      if_pos rfl]
    exact .inr ⟨by omega, rfl⟩
  · have hafter : (a.credit (getHashPrefix key) amount).find (getHashPrefix key) =
        some (dest.setBalance (dest.getBalance + amount.toNat)) := by
      rw [Accounts.credit_eq hfind, Accounts.find_put, if_pos rfl, min_eq_right (by omega)]
    rw [Accounts.keyed_of_own hafter hkey, Account.getBalance_setBalance]
    exact .inl (wrap48_of_range (by unfold balanceMin; omega) (by omega))

end landing

/-! ### The resolution -/

/-- The release, its fees gone. -/
theorem move_settlement (e : L2Escrow) (rep : L2CallReport) (s : CesServer) (time : UInt32) :
    (e.settlement rep s time).move s =
      s.spend (getHashPrefix s.serverKey) e.call.value 0 Accounts.nonceless 0
        (match s.accounts.find (getHashPrefix (e.target rep)) with
        | none =>
          if s.cfg.maxAcc ≤ s.accounts.store.size then (.internal, s)
          else
            match s.accounts.openTarget (s.accounts.balance (getHashPrefix s.serverKey)) (getHashPrefix (e.target rep))
                (.ofKey (e.target rep) (asInt64 e.call.value) 0) e.call.value e.call.value 0 with
            | .error rc => s.refuse (getHashPrefix s.serverKey) 0 rc
            | .ok (total, a) =>
              (.ok, { s with
                accounts :=
                  a.debitTransfer (getHashPrefix s.serverKey) total (getHashPrefix (e.target rep)) e.call.value time })
        | some dest =>
          if dest.getKey (getHashPrefix (e.target rep)) ≠ e.target rep then
            s.refuse (getHashPrefix s.serverKey) 0 .wrongTargetAccount
          else
            match s.accounts.payInto (getHashPrefix (e.target rep)) dest e.call.value with
            | .error rc => s.refuse (getHashPrefix s.serverKey) 0 rc
            | .ok a =>
              (.ok, { s with
                accounts := a.debitTransfer (getHashPrefix s.serverKey) e.call.value (getHashPrefix (e.target rep))
                  e.call.value time })) := by
  have herr : s.errorFee (e.settlement rep s time).errFee = 0 := s.discountedFlatFee_zero _ _
  have hsum : (e.settlement rep s time).amount + 0 = e.call.value := UInt64.add_zero _
  unfold TransferRequest.move
  dsimp only
  rw [herr, flatFee_settlement, creationCost_settlement, hsum]
  rfl

/-- A release that fails, or that goes to the server, takes nothing; otherwise it lands. -/
theorem keyed_settlement (e : L2Escrow) (rep : L2CallReport) (s : CesServer) (time : UInt32) :
    let after := ((e.settlement rep s time).move s).2.accounts.keyed (e.target rep)
    after = s.accounts.keyed (e.target rep) ∨
      (e.Lands rep s ∧ Released e.call.value (s.accounts.keyed (e.target rep)) after) := by
  intro after
  have hrefused : (s.chargeError (getHashPrefix s.serverKey) 0).accounts.keyed (e.target rep) =
      s.accounts.keyed (e.target rep) := s.accounts.keyed_chargeError_zero _ _
  unfold after
  rw [move_settlement]
  refine spend_rule (P := fun t => t.accounts.keyed (e.target rep) = s.accounts.keyed (e.target rep) ∨
    (e.Lands rep s ∧ Released e.call.value (s.accounts.keyed (e.target rep)) (t.accounts.keyed (e.target rep))))
    (.inl rfl) (.inl hrefused) fun hcovers => ?_
  have hcovered : (e.call.value.toNat : Int) ≤ s.accounts.balance (getHashPrefix s.serverKey) := hcovers.covered
  have hmax : (e.call.value.toNat : Int) ≤ balanceMax := hcovered.trans (s.accounts.balance_upper _)
  cases hfind : s.accounts.find (getHashPrefix (e.target rep)) with
  | none =>
    have hne : getHashPrefix (e.target rep) ≠ getHashPrefix s.serverKey := by
      intro hsame
      exact hcovers.found (hsame ▸ hfind)
    dsimp only
    split_ifs with hfull
    · exact .inl rfl
    · cases hopen : s.accounts.openTarget (s.accounts.balance (getHashPrefix s.serverKey))
          (getHashPrefix (e.target rep)) (.ofKey (e.target rep) (asInt64 e.call.value) 0) e.call.value e.call.value
          0 with
      | error rc => exact .inl hrefused
      | ok paid =>
        obtain ⟨total, a⟩ := paid
        obtain ⟨-, -, -, rfl⟩ := Accounts.openTarget_cases hopen
        refine .inr ⟨⟨hne, hcovered, ?_⟩, released_open hne hfind hmax total⟩
        rw [hfind]
        exact not_le.mp hfull
  | some dest =>
    dsimp only
    split_ifs with hkey
    · exact .inl hrefused
    · rw [not_not] at hkey
      cases hpay : s.accounts.payInto (getHashPrefix (e.target rep)) dest e.call.value with
      | error rc => exact .inl hrefused
      | ok a =>
        by_cases hsame : getHashPrefix (e.target rep) = getHashPrefix s.serverKey
        · rw [← hsame, Accounts.balance_of_find hfind] at hcovered
          rw [← hsame]
          exact .inl (keyed_round_trip hfind hcovered hpay)
        · refine .inr ⟨⟨hsame, hcovered, ?_⟩, released_payInto hsame hfind hkey hpay hmax _⟩
          rw [hfind]
          refine ⟨hkey, ?_⟩
          rcases Accounts.payInto_cases hpay with ⟨hneg, hamount, -⟩ | ⟨hnonneg, hroom, -⟩
          · rw [if_pos hneg]
            exact hamount
          · rw [if_neg (by omega)]
            omega

/-- What lands is released. -/
theorem released_of_lands {e : L2Escrow} {rep : L2CallReport} {s : CesServer} (h : e.Lands rep s)
    (hpositive : e.call.value ≠ 0) (time : UInt32) :
    Released e.call.value (s.accounts.keyed (e.target rep))
      (((e.settlement rep s time).move s).2.accounts.keyed (e.target rep)) := by
  obtain ⟨hne, hcovered, htarget⟩ := h
  have hmax : (e.call.value.toNat : Int) ≤ balanceMax := hcovered.trans (s.accounts.balance_upper _)
  have hpos : 0 < e.call.value.toNat := Nat.pos_of_ne_zero fun hzero => hpositive (UInt64.toNat_inj.mp hzero)
  have hfound : s.accounts.find (getHashPrefix s.serverKey) ≠ none := by
    intro hnone
    rw [Accounts.balance_of_none hnone] at hcovered
    omega
  have hcovers : s.accounts.Covers (getHashPrefix s.serverKey) e.call.value 0 :=
    ⟨hfound, e.call.value.toNat_lt, hcovered⟩
  rw [move_settlement, spend_of_covers hcovers]
  cases hfind : s.accounts.find (getHashPrefix (e.target rep)) with
  | none =>
    rw [hfind] at htarget
    dsimp only
    rw [if_neg (not_le.mpr htarget), Accounts.openTarget_of_covered hcovered]
    exact released_open hne hfind hmax _
  | some dest =>
    rw [hfind] at htarget
    obtain ⟨hkey, hroom⟩ := htarget
    obtain ⟨a, hpay⟩ := s.accounts.payInto_of_room (getHashPrefix (e.target rep)) hroom
    dsimp only
    rw [if_neg (not_not.mpr hkey), hpay]
    exact released_payInto hne hfind hkey hpay hmax _

theorem find_notify (t : CesServer) (id : HashPrefix) : (e.notify rep t).accounts.find id = t.accounts.find id := by
  have hcells := e.cells_notify rep t
  exact congrArg (fun c : Cells => c.accounts.lookup id) hcells

theorem l2PendingCount_notify (t : CesServer) : (e.notify rep t).l2PendingCount = t.l2PendingCount := by
  unfold notify CesServer.scheduleRun CesServer.scheduleRunUndoable
  split_ifs <;> rfl

variable (exec : CesServer → VmRunRequest → VmProgram)

/-- The resolution moves the value and counts the call off, whether or not the value arrives. -/
theorem settled_iff_clears (call : PendingL2Call) (channel : Bool) (rep : L2CallReport) (s : CesServer)
    (time : UInt32) :
    Settled ⟨call, channel, false⟩ rep s (completeL2Call exec s ⟨call, channel, false⟩ rep time).1 ↔
      Clears ⟨call, channel, false⟩ rep s := by
  let e : L2Escrow := ⟨call, channel, false⟩
  let t : CesServer := { s with l2PendingCount := s.l2PendingCount - 1 }
  let after := ((e.settlement rep t time).move t).2
  change Settled e rep s (e.notify rep after) ↔ Clears e rep s
  have hkeyed : (e.notify rep after).accounts.keyed (e.target rep) = after.accounts.keyed (e.target rep) :=
    Accounts.keyed_congr (find_notify after _)
  have hcases := keyed_settlement e rep t time
  have hothers : ∀ id, id ≠ getHashPrefix (e.target rep) → id ≠ getHashPrefix s.serverKey →
      (e.notify rep after).accounts.find id = s.accounts.find id := by
    intro id htarget hserver
    exact (find_notify after id).trans (TransferRequest.find_move_of_ne (s := t) hserver htarget)
  have hpending : (e.notify rep after).l2PendingCount = s.l2PendingCount - 1 := by
    have hmove : after.l2PendingCount = t.l2PendingCount := part_move CesServer.l2PendingCount (fun _ _ => rfl) _
    exact (l2PendingCount_notify after).trans hmove
  constructor
  · intro hsettled
    by_cases htarget : e.target rep = s.serverKey
    · exact .inl htarget
    · have hpaid := hsettled.paid htarget
      rw [hkeyed] at hpaid
      rcases hcases with hsame | ⟨hlands, -⟩
      · have hpaid' : Released call.value (s.accounts.keyed (e.target rep)) (s.accounts.keyed (e.target rep)) :=
          hsame ▸ hpaid
        exact .inr (.inl (Released.refl_iff.mp hpaid'))
      · exact .inr (.inr hlands)
  · intro hclears
    refine ⟨fun htarget => ?_, hothers, hpending⟩
    rw [hkeyed]
    by_cases hzero : call.value = 0
    · rcases hcases with hsame | ⟨-, hreleased⟩
      · exact hsame ▸ Released.of_zero hzero
      · exact hreleased
    · have hlands : e.Lands rep t := (hclears.resolve_left htarget).resolve_left hzero
      exact released_of_lands hlands hzero time

end L2Escrow

/-! ### Whole sequences of reports -/

/-- What happens while a call is known: a report on it, or anything else. -/
inductive L2Event where
  | report (rep : L2CallReport) (time : UInt32)
  | other (op : ServerOp)

def L2Event.op? : L2Event → Option ServerOp
  | .report _ _ => none
  | .other op => some op

section

variable (exec : CesServer → VmRunRequest → VmProgram)

def l2Step (st : CesServer × L2Escrow) : L2Event → CesServer × L2Escrow
  | .report rep time => completeL2Call exec st.1 st.2 rep time
  | .other op => (op.apply exec st.1, st.2)

/-- Once the call is resolved its reports might as well not come. -/
theorem foldl_l2Step_of_resolved (later : List L2Event) (s : CesServer) (e : L2Escrow) (h : e.resolved = true) :
    later.foldl (l2Step exec) (s, e) = (runServer exec s (later.filterMap L2Event.op?), e) := by
  induction later generalizing s with
  | nil => rfl
  | cons event later ih =>
    cases event with
    | report rep time =>
      have hignored : l2Step exec (s, e) (.report rep time) = (s, e) := if_pos h
      rw [List.foldl_cons, hignored]
      exact ih s
    | other op => exact ih (op.apply exec s)

/-- For every call, every state it is resolved in, the report that resolves it and what comes later: the value goes to
the one it is due to, nobody else is touched, the call is counted off and later reports change nothing, exactly when the
release goes through. -/
theorem escrow_exactly_once_iff (call : PendingL2Call) (channel : Bool) (rep : L2CallReport) (s : CesServer)
    (time : UInt32) :
    (L2Escrow.Settled ⟨call, channel, false⟩ rep s (completeL2Call exec s ⟨call, channel, false⟩ rep time).1 ∧
      ∀ later : List L2Event,
        (later.foldl (l2Step exec) (completeL2Call exec s ⟨call, channel, false⟩ rep time)).1 =
          runServer exec (completeL2Call exec s ⟨call, channel, false⟩ rep time).1 (later.filterMap L2Event.op?)) ↔
      L2Escrow.Clears ⟨call, channel, false⟩ rep s := by
  rw [L2Escrow.settled_iff_clears]
  refine and_iff_left fun later => ?_
  exact congrArg Prod.fst (foldl_l2Step_of_resolved exec later _ ⟨call, channel, true⟩ rfl)

end

/-! ### A payee that awaits another amount -/

/-- The server's own account holds 1000, the payee is a pending payment of 50, and one call is in flight. -/
def escrowServer : CesServer :=
  let serverKey : Hash := ByteArr.ofList 32 [1]
  let accounts := (∅ : FMap HashPrefix Account).insert (getHashPrefix serverKey) (.ofKey serverKey 1000 0)
  { CesServer.load .stock serverKey (accounts.insert (getHashPrefix tallyKey) (.ofKey tallyKey (-50) 3)) ∅ ∅ with
    l2PendingCount := 1 }

def escrowCall : PendingL2Call := ⟨0, 0, ByteArr.ofList 32 [2], 30, [], ByteArr.zero 32, 0, 0, 0⟩

/-- Thirty credits are delivered to the payee: the server keeps them, and the call is over. -/
theorem escrow_stranded :
    let exec : CesServer → VmRunRequest → VmProgram := fun _ _ => .done ⟨.ok, 0, []⟩
    let e : L2Escrow := ⟨escrowCall, false, false⟩
    let r := completeL2Call exec escrowServer e ⟨.delivered, tallyKey, []⟩ 0
    e.target ⟨.delivered, tallyKey, []⟩ = tallyKey ∧ r.2.resolved = true ∧ r.1.l2PendingCount = 0 ∧
      escrowServer.accounts.keyed tallyKey = -50 ∧ r.1.accounts.keyed tallyKey = -50 ∧
      r.1.accounts.keyed escrowCall.payerKey = 0 ∧ r.1.accounts.keyed escrowServer.serverKey = 1000 := by
  decide +kernel

end Ces
