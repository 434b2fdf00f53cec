import Ces.Vm.Host

/-!
# Value calls

What the seven value calls of the VM host do to balances. A call is refused, or it takes the amount
from the payer and adds it to the payee. Both sides go through casts: the debit guard compares with
`int64_t(amount)`, and the credit check lets every amount pass when the payee's balance is negative.

`Wrote h h' id v` says that `h'` differs from `h` in one balance. Every call is one of: nothing written,
one `Wrote` (the payer alone), two `Wrote`s (payer, then payee); `ValueCall.run_cases` is that
inversion, and the results below only use it and arithmetic.
-/

namespace Ces

open Ces.Lib

namespace VmHost

def balance (h : VmHost) (id : HashPrefix) : Int := h.server.accounts.balance id

/-- The sum of the positive balances. -/
def credits (h : VmHost) : Int := h.server.accounts.credits

/-- `h'` differs from `h` in the balance of `id`, which is `v` now. -/
structure Wrote (h h' : VmHost) (id : HashPrefix) (v : Int) : Prop where
  balance : ∀ x, h'.balance x = if x = id then v else h.balance x
  credits : h'.credits = h.credits - max 0 (h.balance id) + max 0 v

/-- No balance differs. -/
structure SameBalances (h h' : VmHost) : Prop where
  balance : ∀ x, h'.balance x = h.balance x
  credits : h'.credits = h.credits

theorem SameBalances.of_accounts {h h' : VmHost} (heq : h'.server.accounts = h.server.accounts) :
    SameBalances h h' := by
  constructor
  · intro x
    unfold VmHost.balance
    rw [heq]
  · unfold VmHost.credits
    rw [heq]

theorem Wrote.trans_same {h h' h'' : VmHost} {id : HashPrefix} {v : Int} (hw : Wrote h h' id v)
    (hs : SameBalances h' h'') : Wrote h h'' id v :=
  ⟨fun x => (hs.balance x).trans (hw.balance x), hs.credits.trans hw.credits⟩

theorem wrote_setAccount (h : VmHost) (id : HashPrefix) (acc : Account) :
    Wrote h ((h.saveAccount id).setAccount id acc) id acc.getBalance := by
  constructor
  · intro x
    exact Accounts.balance_put h.server.accounts id x acc 0
  · exact Accounts.credits_put h.server.accounts id acc 0

variable {h h' : VmHost}

theorem balance_lower (h : VmHost) (id : HashPrefix) : balanceMin ≤ h.balance id :=
  h.server.accounts.balance_lower id

theorem balance_upper (h : VmHost) (id : HashPrefix) : h.balance id ≤ balanceMax :=
  h.server.accounts.balance_upper id

theorem balance_of_findAccount {id : HashPrefix} {acc : Account} (hf : h.findAccount id = some acc) :
    h.balance id = acc.getBalance :=
  Accounts.balance_of_find hf

theorem findAccount_setAccount (id x : HashPrefix) (acc : Account) :
    ((h.saveAccount id).setAccount id acc).findAccount x = if x = id then some acc else h.findAccount x :=
  Accounts.find_put h.server.accounts id x acc 0

/-! ### Debits -/

/-- The payer `id` existed, covered `int64_t(amount)`, and was debited. -/
structure Debited (h h' : VmHost) (id : HashPrefix) (amount : UInt64) : Prop where
  found : (h.findAccount id).isSome
  guard : asInt64 amount ≤ h.balance id
  wrote : Wrote h h' id (wrap48 (h.balance id - asInt64 amount))
  found_iff : ∀ x, (h'.findAccount x).isSome = (h.findAccount x).isSome
  caller : h'.caller = h.caller
  programOwner : h'.programOwner = h.programOwner

/-- The amount was zero and nothing happened, or the payer was debited. -/
def Paid (h h' : VmHost) (id : HashPrefix) (amount : UInt64) : Prop :=
  (amount = 0 ∧ h' = h) ∨ (amount ≠ 0 ∧ Debited h h' id amount)

theorem debitAccount_cases (h : VmHost) (id : HashPrefix) (amount : UInt64) :
    (∃ rc, rc ≠ .ok ∧ h.debitAccount id amount = (rc, h) ∧
      ((h.findAccount id).isSome → h.balance id < asInt64 amount)) ∨
    ∃ h', h.debitAccount id amount = (.ok, h') ∧ Debited h h' id amount := by
  unfold debitAccount
  cases hf : h.findAccount id with
  | none => exact Or.inl ⟨.originNotFound, by decide, rfl, by simp⟩
  | some acc =>
    have hbal := balance_of_findAccount hf
    simp only
    split_ifs with hguard
    · exact Or.inl ⟨.insufficientBalance, by decide, rfl, fun _ => by omega⟩
    · refine Or.inr ⟨_, rfl, ?_⟩
      have hw := wrote_setAccount h id (acc.setBalance (int64 (acc.getBalance - asInt64 amount)))
      refine ⟨by simp [hf], by omega, ?_, ?_, rfl, rfl⟩
      · rw [Account.getBalance_setBalance, wrap48_int64] at hw
        rwa [hbal]
      · intro x
        rw [findAccount_setAccount]
        split_ifs with hx
        · simp [hx, hf]
        · rfl

/-- Why a debit of `amount` is refused. -/
def Refused (h : VmHost) (id : HashPrefix) (amount : UInt64) : Prop :=
  amount ≠ 0 ∧ ((h.findAccount id).isSome → h.balance id < asInt64 amount)

theorem debitProgramOwner_cases (h : VmHost) (amount : UInt64) :
    (∃ rc, rc ≠ .ok ∧ h.debitProgramOwner amount = (rc, h) ∧ Refused h h.programOwner amount) ∨
    ∃ h', h.debitProgramOwner amount = (.ok, h') ∧ Paid h h' h.programOwner amount := by
  unfold debitProgramOwner
  split_ifs with hzero
  · exact Or.inr ⟨h, rfl, Or.inl ⟨hzero, rfl⟩⟩
  · rcases debitAccount_cases h h.programOwner amount with ⟨rc, hrc, heq, hwhy⟩ | ⟨h', heq, hd⟩
    · exact Or.inl ⟨rc, hrc, heq, hzero, hwhy⟩
    · exact Or.inr ⟨h', heq, Or.inr ⟨hzero, hd⟩⟩

theorem spendAllowance_accounts (h : VmHost) (amount : UInt64) :
    (h.spendAllowance amount).server = h.server ∧ (h.spendAllowance amount).caller = h.caller ∧
      (h.spendAllowance amount).programOwner = h.programOwner := by
  unfold spendAllowance
  split_ifs <;> exact ⟨rfl, rfl, rfl⟩

theorem debitCaller_cases (h : VmHost) (amount : UInt64) :
    (∃ rc, rc ≠ .ok ∧ h.debitCaller amount = (rc, h) ∧
      (h.allowance < amount ∨ Refused h h.caller amount)) ∨
    ∃ h', h.debitCaller amount = (.ok, h') ∧ amount ≤ h.allowance ∧ Paid h h' h.caller amount := by
  unfold debitCaller
  split_ifs with hzero hallow
  · exact Or.inr ⟨h, rfl, by simp [hzero, UInt64.le_iff_toNat_le], Or.inl ⟨hzero, rfl⟩⟩
  · exact Or.inl ⟨.allowanceExceeded, by decide, rfl, Or.inl hallow⟩
  · have hle : amount ≤ h.allowance := UInt64.not_lt.mp hallow
    rcases debitAccount_cases h h.caller amount with ⟨rc, hrc, heq, hwhy⟩ | ⟨h', heq, hd⟩
    · exact Or.inl ⟨rc, hrc, by rw [heq, andThen_of_ne _ hrc], Or.inr ⟨hzero, hwhy⟩⟩
    · obtain ⟨hserver, hcaller, howner⟩ := spendAllowance_accounts h' amount
      refine Or.inr ⟨h'.spendAllowance amount, by rw [heq, andThen_ok], hle, Or.inr ⟨hzero, ?_⟩⟩
      refine ⟨hd.found, hd.guard, hd.wrote.trans_same (.of_accounts (by rw [hserver])), ?_,
        hcaller.trans hd.caller, howner.trans hd.programOwner⟩
      intro x
      rw [← hd.found_iff x]
      unfold findAccount
      rw [hserver]

/-! ### Credits -/

theorem credit_refused_iff (id : HashPrefix) (amount : UInt64) :
    h.checkCredit id amount ≠ .ok ↔ 0 ≤ h.balance id ∧ balanceMax - h.balance id < amount.toNat := by
  unfold checkCredit creditWouldOverflow VmHost.balance
  split_ifs with hover <;> simpa using hover

/-- Adding to an existing account. -/
theorem wrote_addTo {id : HashPrefix} {acc : Account} (hf : h.findAccount id = some acc)
    (amount : UInt64) :
    Wrote h (h.addTo id acc amount) id (wrap48 (saturatingAddBalance (h.balance id) amount)) := by
  have hw := wrote_setAccount h id (acc.setBalance (saturatingAddBalance acc.getBalance amount))
  rw [balance_of_findAccount hf]
  rwa [Account.getBalance_setBalance] at hw

theorem creditHook_accounts (h : VmHost) (dest : Hash) (amount : UInt64) :
    (h.creditHook dest amount).server = h.server := by
  unfold creditHook
  split_ifs
  · rfl
  · split
    · rfl
    · split_ifs <;> rfl

/-- A credit to a key that passed the credit check. -/
theorem wrote_creditKey (dest : Hash) (amount : UInt64)
    (hroom : h.findAccount (getHashPrefix dest) = none → (amount.toNat : Int) ≤ balanceMax) :
    Wrote h (h.creditKey dest amount) (getHashPrefix dest)
      (wrap48 (saturatingAddBalance (h.balance (getHashPrefix dest)) amount)) := by
  unfold creditKey
  cases hf : h.findAccount (getHashPrefix dest) with
  | some acc => exact wrote_addTo hf amount
  | none =>
    have hzero : h.balance (getHashPrefix dest) = 0 := Accounts.balance_of_none hf
    have hfits := hroom hf
    have hsmall : amount.toNat < 2 ^ 63 := by unfold balanceMax at hfits; omega
    have hw := wrote_setAccount h (getHashPrefix dest) (Account.ofKey dest (asInt64 amount) 0)
    rw [Account.getBalance_ofKey] at hw
    rw [hzero]
    have hsum : saturatingAddBalance 0 amount = asInt64 amount := by
      unfold saturatingAddBalance
      rw [if_neg (by omega), zero_add, asInt64_of_lt hsmall]
      exact int64_of_range (by omega) (by omega)
    rwa [hsum]

theorem Paid.not_refused {id : HashPrefix} {amount : UInt64} (hp : Paid h h' id amount) :
    ¬ Refused h id amount := by
  rintro ⟨hne, hlow⟩
  rcases hp with ⟨hzero, -⟩ | ⟨-, hd⟩
  · exact hne hzero
  · have := hlow hd.found
    have := hd.guard
    omega

theorem Paid.caller {id : HashPrefix} {amount : UInt64} (hp : Paid h h' id amount) :
    h'.caller = h.caller ∧ h'.programOwner = h.programOwner := by
  rcases hp with ⟨-, rfl⟩ | ⟨-, hd⟩
  · exact ⟨rfl, rfl⟩
  · exact ⟨hd.caller, hd.programOwner⟩

theorem Paid.found_iff {id : HashPrefix} {amount : UInt64} (hp : Paid h h' id amount) (x : HashPrefix) :
    (h'.findAccount x).isSome = (h.findAccount x).isSome := by
  rcases hp with ⟨-, rfl⟩ | ⟨-, hd⟩
  · rfl
  · exact hd.found_iff x

/-- The two guards of a call the caller pays for, then `next`. -/
theorem callerMove_cases (h : VmHost) (payee : HashPrefix) (amount : UInt64)
    (next : VmHost → Rc × VmHost) :
    let r := andThen (h.checkCredit payee amount, h) fun h => andThen (h.debitCaller amount) next
    (r.2 = h ∧ (h.checkCredit payee amount ≠ .ok ∨ h.allowance < amount ∨ Refused h h.caller amount)) ∨
    ∃ mid, r = next mid ∧ h.checkCredit payee amount = .ok ∧ amount ≤ h.allowance ∧
      Paid h mid h.caller amount := by
  intro r
  by_cases hcheck : h.checkCredit payee amount = .ok
  · rcases debitCaller_cases h amount with ⟨rc, hrc, heq, hwhy⟩ | ⟨mid, heq, hle, hp⟩
    · left
      simp only [r, hcheck, andThen_ok, heq, andThen_of_ne _ hrc]
      exact ⟨trivial, Or.inr hwhy⟩
    · right
      refine ⟨mid, ?_, hcheck, hle, hp⟩
      simp only [r, hcheck, andThen_ok, heq]
  · left
    simp only [r, andThen_of_ne _ hcheck]
    exact ⟨trivial, Or.inl hcheck⟩

/-- The same for a call the program owner pays for. -/
theorem ownerMove_cases (h : VmHost) (payee : HashPrefix) (amount : UInt64)
    (next : VmHost → Rc × VmHost) :
    let r := andThen (h.checkCredit payee amount, h) fun h => andThen (h.debitProgramOwner amount) next
    (r.2 = h ∧ (h.checkCredit payee amount ≠ .ok ∨ Refused h h.programOwner amount)) ∨
    ∃ mid, r = next mid ∧ h.checkCredit payee amount = .ok ∧ Paid h mid h.programOwner amount := by
  intro r
  by_cases hcheck : h.checkCredit payee amount = .ok
  · rcases debitProgramOwner_cases h amount with ⟨rc, hrc, heq, hwhy⟩ | ⟨mid, heq, hp⟩
    · left
      simp only [r, hcheck, andThen_ok, heq, andThen_of_ne _ hrc]
      exact ⟨trivial, Or.inr hwhy⟩
    · right
      refine ⟨mid, ?_, hcheck, hp⟩
      simp only [r, hcheck, andThen_ok, heq]
  · left
    simp only [r, andThen_of_ne _ hcheck]
    exact ⟨trivial, Or.inl hcheck⟩

end VmHost

/-! ### The seven calls -/

open VmHost

inductive ValueCall where
  | transfer (dest : Hash) (amount : UInt64)
  | ownerTransfer (dest : Hash) (amount : UInt64)
  | deposit (amount : UInt64)
  | withdraw (amount : UInt64)
  | buyAsset (key : Hash) (maxPrice : UInt64)
  | crossTransfer (dest : Hash) (amount : UInt64) (server : Bytes)
  | l2call (disc : Bytes) (value : UInt64) (blob : Bytes) (followupKey : Hash)
      (followupBudget : UInt64) (followupTag : UInt32)

namespace ValueCall

def call : ValueCall → HostCall
  | transfer dest amount => .transfer dest amount
  | ownerTransfer dest amount => .ownerTransfer dest amount
  | deposit amount => .deposit amount
  | withdraw amount => .withdraw amount
  | buyAsset key maxPrice => .buyAsset key maxPrice
  | crossTransfer dest amount server => .crossTransfer dest amount server
  | l2call disc value blob followupKey followupBudget followupTag =>
    .l2call disc value blob followupKey followupBudget followupTag

/-- The host after the call. -/
def run (c : ValueCall) (h : VmHost) : VmHost := (handle c.call h).2

/-- The account the call debits. -/
def payer (c : ValueCall) (h : VmHost) : HashPrefix :=
  match c with
  | ownerTransfer _ _ => h.programOwner
  | withdraw _ => h.programOwner
  | _ => h.caller

/-- Payee and amount of a call that passes every check which is not about balances: the allowance, the
price, the peer and its settlement queue, the registry and its backlog. -/
def move (c : ValueCall) (h : VmHost) : Option (HashPrefix × UInt64) :=
  match c with
  | transfer dest amount => if h.allowance < amount then none else some (getHashPrefix dest, amount)
  | ownerTransfer dest amount => some (getHashPrefix dest, amount)
  | deposit amount => if h.allowance < amount then none else some (h.programOwner, amount)
  | withdraw amount => some (h.caller, amount)
  | buyAsset key maxPrice =>
    match h.server.assets.lookup key with
    | none => none
    | some asset =>
      if asset.price = 0 ∨ maxPrice < storedToRealPrice asset.price ∨
        h.allowance < storedToRealPrice asset.price then none
      else some (asset.ownerId, storedToRealPrice asset.price)
  | crossTransfer _ amount server =>
    match h.findPeer server with
    | none => none
    | some peer =>
      if (h.server.settlementLoad server peer.ckey).all (95 ≤ ·) ∨ h.allowance < amount then none
      else some (getHashPrefix peer.ckey, amount)
  | l2call disc value _ _ _ _ =>
    match h.server.l2Registry.lookup (UInt64.ofNat (beNat (disc.take 8))) with
    | none => none
    | some _ =>
      if h.server.cfg.l2MaxPending ≤ h.server.l2PendingCount ∨ h.allowance < value then none
      else some (getHashPrefix h.server.serverKey, value)

/-- The call moves `amount` to `payee`: it passes the credit check and the debit guard too. -/
def Accepted (c : ValueCall) (h : VmHost) (payee : HashPrefix) (amount : UInt64) : Prop :=
  c.move h = some (payee, amount) ∧ h.checkCredit payee amount = .ok ∧ ¬ Refused h (c.payer h) amount

/-- The call only credits an account that exists; the others create it. -/
def needsPayee : ValueCall → Bool
  | deposit _ | withdraw _ | buyAsset _ _ => true
  | _ => false

/-- The balances after a move: the payer paid, then the payee got the amount, or was needed and missing. -/
def Moved (needsPayee : Bool) (h h' : VmHost) (payer payee : HashPrefix) (amount : UInt64) : Prop :=
  ∃ mid, Paid h mid payer amount ∧
    ((needsPayee = true ∧ h.findAccount payee = none ∧ SameBalances mid h') ∨
      Wrote mid h' payee (wrap48 (saturatingAddBalance (mid.balance payee) amount)))

/-- A payee missing after the debit was missing before it, and then the checked amount fits. -/
theorem room_of_check {h mid : VmHost} {payer payee : HashPrefix} {amount : UInt64}
    (hcheck : h.checkCredit payee amount = .ok) (hp : Paid h mid payer amount)
    (hf : mid.findAccount payee = none) :
    h.findAccount payee = none ∧ (amount.toNat : Int) ≤ balanceMax := by
  have hnone : h.findAccount payee = none := by
    have := hp.found_iff payee
    rw [hf] at this
    simpa using this.symm
  have hzero : h.balance payee = 0 := Accounts.balance_of_none hnone
  refine ⟨hnone, ?_⟩
  by_contra hbig
  exact (credit_refused_iff payee amount).mpr ⟨by omega, by omega⟩ hcheck

theorem moved_creditKey {h mid : VmHost} {payer : HashPrefix} {dest : Hash} {amount : UInt64}
    (hcheck : h.checkCredit (getHashPrefix dest) amount = .ok) (hp : Paid h mid payer amount)
    {needs : Bool} {h' : VmHost}
    (hsame : h'.server.accounts = (mid.creditKey dest amount).server.accounts) :
    Moved needs h h' payer (getHashPrefix dest) amount :=
  ⟨mid, hp, Or.inr ((wrote_creditKey dest amount fun hf => (room_of_check hcheck hp hf).2).trans_same
    (.of_accounts hsame))⟩

theorem moved_creditExisting {h mid : VmHost} {payer payee : HashPrefix} {amount : UInt64}
    (hcheck : h.checkCredit payee amount = .ok) (hp : Paid h mid payer amount) {h' : VmHost}
    (hsame : h'.server.accounts = (mid.creditExisting payee amount).2.server.accounts) :
    Moved true h h' payer payee amount := by
  refine ⟨mid, hp, ?_⟩
  unfold creditExisting at hsame
  cases hf : mid.findAccount payee with
  | none =>
    rw [hf] at hsame
    exact Or.inl ⟨rfl, (room_of_check hcheck hp hf).1, .of_accounts hsame⟩
  | some acc =>
    rw [hf] at hsame
    exact Or.inr ((wrote_addTo hf amount).trans_same (.of_accounts hsame))

/-- What a call that the caller pays for does, once its other checks passed. -/
theorem callerMove_moved (c : ValueCall) (h : VmHost) (payee : HashPrefix) (amount : UInt64)
    (next : VmHost → Rc × VmHost)
    (hrun : c.run h =
      (andThen (h.checkCredit payee amount, h) fun h => andThen (h.debitCaller amount) next).2)
    (hpayer : c.payer h = h.caller)
    (hmove : c.move h = if h.allowance < amount then none else some (payee, amount))
    (hnext : ∀ mid, h.checkCredit payee amount = .ok → Paid h mid h.caller amount →
      Moved c.needsPayee h (next mid).2 h.caller payee amount) :
    (SameBalances h (c.run h) ∧ ∀ payee amount, ¬ c.Accepted h payee amount) ∨
      ∃ payee amount, c.Accepted h payee amount ∧
        Moved c.needsPayee h (c.run h) (c.payer h) payee amount := by
  rw [hrun, hpayer]
  rcases callerMove_cases h payee amount next with ⟨heq, hwhy⟩ | ⟨mid, heq, hcheck, hle, hp⟩
  · left
    rw [heq]
    refine ⟨.of_accounts rfl, ?_⟩
    rintro p n ⟨hm, hok, hnot⟩
    rw [hmove] at hm
    split_ifs at hm with hallow
    cases hm
    rcases hwhy with hw | hw | hw
    · exact hw hok
    · exact hallow hw
    · exact hnot (hpayer ▸ hw)
  · right
    refine ⟨payee, amount, ⟨?_, hcheck, ?_⟩, ?_⟩
    · rw [hmove, if_neg (UInt64.not_lt.mpr hle)]
    · rw [hpayer]
      exact hp.not_refused
    · rw [heq]
      exact hnext mid hcheck hp

/-- The same for a call the program owner pays for. -/
theorem ownerMove_moved (c : ValueCall) (h : VmHost) (payee : HashPrefix) (amount : UInt64)
    (next : VmHost → Rc × VmHost)
    (hrun : c.run h =
      (andThen (h.checkCredit payee amount, h) fun h => andThen (h.debitProgramOwner amount) next).2)
    (hpayer : c.payer h = h.programOwner) (hmove : c.move h = some (payee, amount))
    (hnext : ∀ mid, h.checkCredit payee amount = .ok → Paid h mid h.programOwner amount →
      Moved c.needsPayee h (next mid).2 h.programOwner payee amount) :
    (SameBalances h (c.run h) ∧ ∀ payee amount, ¬ c.Accepted h payee amount) ∨
      ∃ payee amount, c.Accepted h payee amount ∧
        Moved c.needsPayee h (c.run h) (c.payer h) payee amount := by
  rw [hrun, hpayer]
  rcases ownerMove_cases h payee amount next with ⟨heq, hwhy⟩ | ⟨mid, heq, hcheck, hp⟩
  · left
    rw [heq]
    refine ⟨.of_accounts rfl, ?_⟩
    rintro p n ⟨hm, hok, hnot⟩
    rw [hmove] at hm
    cases hm
    rcases hwhy with hw | hw
    · exact hw hok
    · exact hnot (hpayer ▸ hw)
  · right
    refine ⟨payee, amount, ⟨hmove, hcheck, ?_⟩, ?_⟩
    · rw [hpayer]
      exact hp.not_refused
    · rw [heq]
      exact hnext mid hcheck hp

/-- A call its other checks refuse. -/
theorem same_of_unmoved {c : ValueCall} {h : VmHost} (hrun : c.run h = h) (hmove : c.move h = none) :
    (SameBalances h (c.run h) ∧ ∀ payee amount, ¬ c.Accepted h payee amount) ∨
      ∃ payee amount, c.Accepted h payee amount ∧
        Moved c.needsPayee h (c.run h) (c.payer h) payee amount := by
  left
  rw [hrun]
  refine ⟨.of_accounts rfl, ?_⟩
  rintro p n ⟨hm, -⟩
  rw [hmove] at hm
  cases hm

/-- **Inversion.** A value call is refused and changes no balance, or it moves an amount. -/
theorem run_cases (c : ValueCall) (h : VmHost) :
    (SameBalances h (c.run h) ∧ ∀ payee amount, ¬ c.Accepted h payee amount) ∨
      ∃ payee amount, c.Accepted h payee amount ∧
        Moved c.needsPayee h (c.run h) (c.payer h) payee amount := by
  cases c with
  | transfer dest amount =>
    refine callerMove_moved _ h (getHashPrefix dest) amount _ rfl rfl rfl fun mid hcheck hp => ?_
    exact moved_creditKey hcheck hp (by simp [creditDest, creditHook_accounts])
  | ownerTransfer dest amount =>
    refine ownerMove_moved _ h (getHashPrefix dest) amount _ rfl rfl rfl fun mid hcheck hp => ?_
    exact moved_creditKey hcheck hp (by simp [creditDest, creditHook_accounts])
  | deposit amount =>
    refine callerMove_moved _ h h.programOwner amount _ rfl rfl rfl fun mid hcheck hp => ?_
    exact moved_creditExisting hcheck hp (by rw [hp.caller.2])
  | withdraw amount =>
    refine ownerMove_moved _ h h.caller amount _ rfl rfl rfl fun mid hcheck hp => ?_
    exact moved_creditExisting hcheck hp (by rw [hp.caller.1])
  | buyAsset key maxPrice =>
    cases hasset : h.server.assets.lookup key with
    | none =>
      refine same_of_unmoved ?_ (by simp [move, hasset])
      simp [run, call, handle, answer, VmHost.buyAsset, hasset]
    | some asset =>
      by_cases hchecks : asset.price = 0 ∨ maxPrice < storedToRealPrice asset.price
      · refine same_of_unmoved ?_ (by simp only [move, hasset]; rw [if_pos (by tauto)])
        simp only [run, call, handle, answer, VmHost.buyAsset, hasset]
        split_ifs <;> first | rfl | tauto
      · obtain ⟨hprice, hmax⟩ := not_or.mp hchecks
        refine callerMove_moved _ h asset.ownerId (storedToRealPrice asset.price) _
          (by simp only [run, call, handle, answer, VmHost.buyAsset, VmHost.purchase, hasset,
                if_neg hprice, if_neg hmax]; rfl)
          rfl (by simp [move, hasset, hprice, hmax]) fun mid hcheck hp => ?_
        exact moved_creditExisting hcheck hp rfl
  | crossTransfer dest amount server =>
    cases hpeer : h.findPeer server with
    | none =>
      refine same_of_unmoved ?_ (by simp [move, hpeer])
      simp [run, call, handle, answer, VmHost.crossTransfer, hpeer]
    | some peer =>
      by_cases hload : (h.server.settlementLoad server peer.ckey).all (95 ≤ ·) = true
      · refine same_of_unmoved ?_ (by simp [move, hpeer, hload])
        simp [run, call, handle, answer, VmHost.crossTransfer, hpeer, hload]
      · refine callerMove_moved _ h (getHashPrefix peer.ckey) amount _
          (by simp only [run, call, handle, answer, VmHost.crossTransfer, hpeer, if_neg hload]; rfl)
          rfl (by simp [move, hpeer, hload]) fun mid hcheck hp => ?_
        exact moved_creditKey hcheck hp rfl
  | l2call disc value blob followupKey followupBudget followupTag =>
    cases hreg : h.server.l2Registry.lookup (UInt64.ofNat (beNat (disc.take 8))) with
    | none =>
      refine same_of_unmoved ?_ (by simp [move, hreg])
      simp [run, call, handle, answer, VmHost.l2call, hreg]
    | some handler =>
      by_cases hfull : h.server.cfg.l2MaxPending ≤ h.server.l2PendingCount
      · refine same_of_unmoved ?_ (by simp [move, hreg, hfull])
        simp [run, call, handle, answer, VmHost.l2call, hreg, hfull]
      · -- the burn is a transfer to the server's own key; what follows it touches no balance
        refine callerMove_moved _ h (getHashPrefix h.server.serverKey) value _
          (by simp only [run, call, handle, answer, VmHost.l2call, hreg, if_neg hfull,
                VmHost.transfer, andThen_assoc]; rfl)
          rfl (by simp [move, hreg, hfull]) fun mid hcheck hp => ?_
        exact moved_creditKey hcheck hp (by simp [creditDest, creditHook_accounts])

end ValueCall

/-! ### No minting -/

/-- Below `2 ^ 63` the debit is exact: the guard makes the payer cover the amount. -/
theorem wrap48_debit_small {b : Int} {amount : UInt64} (hsmall : amount.toNat < 2 ^ 63)
    (hguard : asInt64 amount ≤ b) (hhigh : b ≤ balanceMax) :
    wrap48 (b - asInt64 amount) = b - amount.toNat := by
  rw [asInt64_of_lt hsmall] at hguard ⊢
  exact wrap48_of_range (by unfold balanceMin; omega) (by unfold balanceMax at *; omega)

/-- At and above `2 ^ 63` only the low 48 bits of the amount reach the field. -/
theorem wrap48_debit_big (b : Int) {amount : UInt64} (hbig : 2 ^ 63 ≤ amount.toNat) :
    wrap48 (b - asInt64 amount) = wrap48 (b - (amount.toNat % 2 ^ 48 : Nat)) := by
  rw [asInt64_of_ge hbig]
  unfold wrap48 signed
  omega

theorem wrap48_credit_small {d : Int} {amount : UInt64}
    (hroom : ¬ (0 ≤ d ∧ balanceMax - d < amount.toNat)) (hsmall : amount.toNat < 2 ^ 63)
    (hlow : balanceMin ≤ d) (hfits : d + amount.toNat ≤ balanceMax) :
    wrap48 (saturatingAddBalance d amount) = d + amount.toNat := by
  unfold saturatingAddBalance
  rw [if_neg hroom, wrap48_int64, asInt64_of_lt hsmall]
  exact wrap48_of_range (by unfold balanceMin at *; omega) hfits

theorem wrap48_credit_big {d : Int} {amount : UInt64} (hneg : d < 0) (hbig : 2 ^ 63 ≤ amount.toNat) :
    wrap48 (saturatingAddBalance d amount) = wrap48 (d + (amount.toNat % 2 ^ 48 : Nat)) := by
  unfold saturatingAddBalance
  rw [if_neg (by omega), wrap48_int64, asInt64_of_ge hbig]
  unfold wrap48 signed
  omega

/-- The wrapped move of `t`, the low 48 bits of the amount, from a balance `b` to a negative balance `d`
creates nothing. For one and the same account the debit must leave it negative, or else the credit
saturates. -/
def WrapSafe (sameAccount : Prop) [Decidable sameAccount] (b d t : Int) : Prop :=
  if sameAccount then balanceMin ≤ b - t ∨ b - t + 2 ^ 48 < 0
  else t = 0 ∨ (balanceMin ≤ b - t ∧ (balanceMax < d + t ∨ d + t ≤ max b 0))

/-- One account on both sides. -/
theorem move_same_iff {b : Int} {amount : UInt64} (hlow : balanceMin ≤ b) (hhigh : b ≤ balanceMax)
    (hguard : asInt64 amount ≤ b) (hcheck : ¬ (0 ≤ b ∧ balanceMax - b < amount.toNat)) :
    wrap48 (saturatingAddBalance (wrap48 (b - asInt64 amount)) amount) ≤ b ↔
      (2 ^ 63 ≤ amount.toNat → b < 0 →
        balanceMin ≤ b - (amount.toNat % 2 ^ 48 : Nat) ∨ b - (amount.toNat % 2 ^ 48 : Nat) + 2 ^ 48 < 0) := by
  rcases asInt64_cases amount with ⟨hsmall, hcast⟩ | ⟨hbig, hcast⟩
  · -- the guard makes `b` cover the amount, so the debit and the credit cancel
    have hb : (amount.toNat : Int) ≤ b := by omega
    rw [wrap48_debit_small hsmall hguard hhigh,
      wrap48_credit_small (by unfold balanceMax at *; omega) hsmall (by unfold balanceMin; omega)
        (by omega)]
    constructor
    · intro _ hbig
      omega
    · intro _
      omega
  · have hneg : b < 0 := by
      unfold balanceMax balanceMin at *
      omega
    rw [wrap48_debit_big b hbig]
    by_cases hstay : wrap48 (b - (amount.toNat % 2 ^ 48 : Nat)) < 0
    · rw [wrap48_credit_big hstay hbig]
      unfold wrap48 signed balanceMin balanceMax at *
      omega
    · have hsat : saturatingAddBalance (wrap48 (b - (amount.toNat % 2 ^ 48 : Nat))) amount =
          balanceMax := by
        unfold saturatingAddBalance
        rw [if_pos ⟨by omega, by unfold balanceMax; omega⟩]
      rw [hsat, wrap48_of_range (by decide) (le_refl _)]
      unfold wrap48 signed balanceMin balanceMax at *
      omega

/-- Two different accounts. -/
theorem move_ne_iff {b d : Int} {amount : UInt64} (hlow : balanceMin ≤ b) (hhigh : b ≤ balanceMax)
    (hdlow : balanceMin ≤ d) (hdhigh : d ≤ balanceMax) (hguard : asInt64 amount ≤ b)
    (hcheck : ¬ (0 ≤ d ∧ balanceMax - d < amount.toNat)) :
    (wrap48 (b - asInt64 amount) ≤ b ∧
      max 0 (wrap48 (b - asInt64 amount)) + max 0 (wrap48 (saturatingAddBalance d amount)) ≤
        max 0 b + max 0 d) ↔
      (2 ^ 63 ≤ amount.toNat → d < 0 →
        (amount.toNat % 2 ^ 48 : Nat) = (0 : Int) ∨ (balanceMin ≤ b - (amount.toNat % 2 ^ 48 : Nat) ∧
          (balanceMax < d + (amount.toNat % 2 ^ 48 : Nat) ∨
            d + (amount.toNat % 2 ^ 48 : Nat) ≤ max b 0))) := by
  rcases asInt64_cases amount with ⟨hsmall, hcast⟩ | ⟨hbig, hcast⟩
  · have hb : (amount.toNat : Int) ≤ b := by omega
    rw [wrap48_debit_small hsmall hguard hhigh,
      wrap48_credit_small hcheck hsmall hdlow (by omega)]
    constructor
    · intro _ hbig
      omega
    · intro _
      omega
  · have hneg : d < 0 := by
      unfold balanceMax balanceMin at *
      omega
    rw [wrap48_debit_big b hbig, wrap48_credit_big hneg hbig]
    unfold wrap48 signed balanceMin balanceMax at *
    omega

/-- No positive balance was created and the payer does not end richer. -/
def NoMint (h h' : VmHost) (payer : HashPrefix) : Prop :=
  h'.credits ≤ h.credits ∧ h'.balance payer ≤ h.balance payer

namespace ValueCall

/-- The condition under which a value call creates nothing. Only an amount of at least `2 ^ 63` that the
other checks let through, sent to an account with a negative balance by an existing payer whose balance
covers the negative cast, can fail it. -/
def MintSafe (c : ValueCall) (h : VmHost) : Prop :=
  ∀ payee amount, c.move h = some (payee, amount) → 2 ^ 63 ≤ amount.toNat → h.balance payee < 0 →
    (h.findAccount (c.payer h)).isSome → asInt64 amount ≤ h.balance (c.payer h) →
    WrapSafe (c.payer h = payee) (h.balance (c.payer h)) (h.balance payee) (amount.toNat % 2 ^ 48 : Nat)

/-- A call that moves an amount meets every premise of `MintSafe` but the two about its size and the
payee's sign. -/
theorem mintSafe_iff_of_accepted {c : ValueCall} {h : VmHost} {payee : HashPrefix} {amount : UInt64}
    (hacc : c.Accepted h payee amount) :
    c.MintSafe h ↔ (2 ^ 63 ≤ amount.toNat → h.balance payee < 0 →
      WrapSafe (c.payer h = payee) (h.balance (c.payer h)) (h.balance payee)
        (amount.toNat % 2 ^ 48 : Nat)) := by
  obtain ⟨hmove, -, hnot⟩ := hacc
  constructor
  · intro hsafe hbig hneg
    have hne : amount ≠ 0 := by
      rintro rfl
      exact absurd hbig (by decide)
    have hcov := not_and.mp hnot hne
    rw [Classical.not_imp] at hcov
    exact hsafe payee amount hmove hbig hneg hcov.1 (by omega)
  · rintro hsafe p n hm hbig hneg - -
    rw [hmove] at hm
    cases hm
    exact hsafe hbig hneg

/-- A move of nothing leaves every balance. -/
theorem noMint_of_zero {needs : Bool} {h h' : VmHost} {payer payee : HashPrefix}
    (hmoved : Moved needs h h' payer payee 0) : NoMint h h' payer := by
  obtain ⟨mid, ⟨-, rfl⟩ | ⟨hne, -⟩, htail⟩ := hmoved
  · rcases htail with ⟨-, -, hs⟩ | hw
    · exact ⟨le_of_eq hs.credits, le_of_eq (hs.balance _)⟩
    · have hhigh := mid.balance_upper payee
      have hval : wrap48 (saturatingAddBalance (mid.balance payee) 0) = mid.balance payee := by
        rw [wrap48_credit_small (by simp; omega) (by decide) (mid.balance_lower payee)
          (by simpa using hhigh)]
        simp
      rw [hval] at hw
      refine ⟨by have := hw.credits; omega, ?_⟩
      rw [hw.balance]
      split_ifs with hx
      · rw [hx]
      · exact le_refl _
  · exact absurd rfl hne

section moves

variable {h mid h' : VmHost} {payer payee : HashPrefix} {amount : UInt64}
  (hd : Debited h mid payer amount)
  (hroom : ¬ (0 ≤ h.balance payee ∧ balanceMax - h.balance payee < amount.toNat))
include hd hroom

/-- The payee is missing: the payer alone is debited, by an amount that fits. -/
theorem noMint_of_missing (hmissing : h.findAccount payee = none) (hs : SameBalances mid h') :
    amount.toNat < 2 ^ 63 ∧ NoMint h h' payer := by
  have hpayee : h.balance payee = 0 := Accounts.balance_of_none hmissing
  have hsmall : amount.toNat < 2 ^ 63 := by unfold balanceMax at hroom; omega
  have hval := wrap48_debit_small hsmall hd.guard (h.balance_upper payer)
  have hmid := hd.wrote.credits
  refine ⟨hsmall, ?_, ?_⟩
  · rw [hs.credits, hmid, hval]
    omega
  · rw [hs.balance, hd.wrote.balance, if_pos rfl, hval]
    omega

theorem noMint_iff_of_wrote
    (hw : Wrote mid h' payee (wrap48 (saturatingAddBalance (mid.balance payee) amount))) :
    NoMint h h' payer ↔ (2 ^ 63 ≤ amount.toNat → h.balance payee < 0 →
      WrapSafe (payer = payee) (h.balance payer) (h.balance payee) (amount.toNat % 2 ^ 48 : Nat)) := by
  have hmid := hd.wrote.credits
  have hcred := hw.credits
  have hbal := hd.wrote.balance payee
  have hfinal := hw.balance payer
  unfold WrapSafe NoMint
  by_cases heq : payer = payee
  · -- the credit reads the balance the debit left
    subst heq
    rw [if_pos rfl] at hbal hfinal
    rw [hbal] at hcred hfinal
    rw [if_pos rfl, hfinal,
      ← move_same_iff (h.balance_lower payer) (h.balance_upper payer) hd.guard hroom]
    constructor
    · exact fun hno => hno.2
    · intro hle
      refine ⟨?_, hle⟩
      omega
  · rw [if_neg (Ne.symm heq)] at hbal
    rw [if_neg heq, hd.wrote.balance, if_pos rfl] at hfinal
    rw [hbal] at hcred
    rw [if_neg heq, hfinal, ← move_ne_iff (h.balance_lower payer) (h.balance_upper payer)
      (h.balance_lower payee) (h.balance_upper payee) hd.guard hroom, and_comm]
    refine and_congr_right fun _ => ?_
    rw [hcred, hmid]
    omega

end moves

/-- **No VM mint.** A value call creates no credits and never enriches its payer, exactly when it is
`MintSafe`. -/
theorem noMint_iff_mintSafe (c : ValueCall) (h : VmHost) :
    NoMint h (c.run h) (c.payer h) ↔ c.MintSafe h := by
  rcases c.run_cases h with ⟨hsame, hnone⟩ | ⟨payee, amount, hacc, hmoved⟩
  · -- refused: no balance changes, and no move meets the premises of `MintSafe`
    refine iff_of_true ⟨le_of_eq hsame.credits, le_of_eq (hsame.balance _)⟩ ?_
    intro payee amount hm hbig hneg hsome hguard
    refine absurd ⟨hm, ?_, ?_⟩ (hnone payee amount)
    · by_contra hcheck
      have := ((credit_refused_iff payee amount).mp hcheck).1
      omega
    · rintro ⟨-, hlt⟩
      have := hlt hsome
      omega
  · rw [mintSafe_iff_of_accepted hacc]
    by_cases hzero : amount = 0
    · subst hzero
      exact iff_of_true (noMint_of_zero hmoved) fun hbig => absurd hbig (by decide)
    · obtain ⟨mid, ⟨h0, -⟩ | ⟨-, hd⟩, htail⟩ := hmoved
      · exact absurd h0 hzero
      · have hroom : ¬ (0 ≤ h.balance payee ∧ balanceMax - h.balance payee < amount.toNat) :=
          fun hc => (credit_refused_iff payee amount).mpr hc hacc.2.1
        rcases htail with ⟨-, hmissing, hs⟩ | hw
        · obtain ⟨hsmall, hno⟩ := noMint_of_missing hd hroom hmissing hs
          exact iff_of_true hno fun hbig => by omega
        · exact noMint_iff_of_wrote hd hroom hw

/-- A caller holding 100 and a pending payment of 10, with no allowance enforced. -/
def paymentHost : VmHost :=
  let caller := ByteArr.ofList 32 (List.replicate 32 1)
  let payment := ByteArr.ofList 32 (List.replicate 32 2)
  let store : FMap HashPrefix Account :=
    ((∅ : FMap HashPrefix Account).insert (getHashPrefix caller) (Account.ofKey caller 100 0)).insert
      (getHashPrefix payment) (Account.ofKey payment (-10) 0)
  .ofRequest (.load .stock (ByteArr.zero 32) store ∅ ∅)
    ⟨getHashPrefix caller, caller, ByteArr.zero 32, ByteArr.zero 8, [], [], 0, uint64Max, 1, false, false,
      0, 0⟩

/-- A program that transfers `2 ^ 64 - 5` to the payment account leaves its caller with 105. -/
theorem transfer_to_payment_mints :
    let c := ValueCall.transfer (ByteArr.ofList 32 (List.replicate 32 2)) 0xFFFFFFFFFFFFFFFB
    paymentHost.balance (c.payer paymentHost) = 100 ∧
      (c.run paymentHost).balance (c.payer paymentHost) = 105 ∧
      paymentHost.credits = 100 ∧ (c.run paymentHost).credits = 105 := by
  decide

end ValueCall

end Ces
