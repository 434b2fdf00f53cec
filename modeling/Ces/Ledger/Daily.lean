import Ces.Ledger.Mint

/-!
# Daily maintenance

Once a day every account pays its rent, prepaid asset days run down, and aliases and key names are charged to
the accounts they belong to. The maps are walked in an order of the container's choosing, so the order is an
argument. A sweep writes balances in place and collects what left circulation in `delta`, which reaches the
tally in one adjustment at the end; `Sweep.Sound` is what every step of every walk keeps.
-/

namespace Ces

open Ces.Lib

/-- The accounts during a sweep, with the change the tally has not seen yet. -/
structure Sweep where
  accounts : Accounts
  delta : Int

namespace Sweep

variable (w : Sweep)

def start (a : Accounts) : Sweep := ⟨a, 0⟩

def settle : Accounts := w.accounts.adjustTotalCredits w.delta

/-- Burn one fee of an account that has more than that. -/
def charge (id : HashPrefix) (acc : Account) (fee : UInt64) : Sweep where
  accounts := w.accounts.setCell id (acc.setBalance (acc.getBalance - asInt64 fee))
  delta := int64 (w.delta - asInt64 fee)

/-- Erase an account, burning what it held. -/
def expire (id : HashPrefix) (burned : Int) : Sweep where
  accounts := w.accounts.eraseCell id
  delta := int64 (w.delta - burned)

/-- A pending payment lives as many days as its nonce says; any other account pays the fee or goes. -/
def account (fee : UInt64) (id : HashPrefix) : Sweep :=
  match w.accounts.find id with
  | none => w
  | some acc =>
    if acc.getBalance < 0 then
      if acc.nonce ≤ 1 then { w with accounts := w.accounts.eraseCell id }
      else { w with accounts := w.accounts.setCell id { acc with nonce := acc.nonce - 1 } }
    else if acc.getBalance ≤ asInt64 fee then w.expire id acc.getBalance
    else w.charge id acc fee

/-- Charge a day to the owner, when there is one who can pay. -/
def rent (owner : HashPrefix) (fee : UInt64) : Option Sweep :=
  match w.accounts.find owner with
  | none => none
  | some acc => if acc.getBalance ≤ asInt64 fee then none else some (w.charge owner acc fee)

end Sweep

/-- One asset: a prepaid day goes, and at the floor the owner of an owner-pays asset is charged. -/
def sweepAsset (fee : UInt64) (st : Sweep × FMap Hash Asset) (key : Hash) : Sweep × FMap Hash Asset :=
  match st.2.lookup key with
  | none => st
  | some asset =>
    let days := assetDays asset.balance
    if days ≤ 1 then
      if isAssetOwnerPays asset.balance && !isAssetOwned asset.balance then
        match st.1.rent asset.ownerId fee with
        | some w => (w, st.2.insert key { asset with balance := withDays asset.balance 0 })
        | none => (st.1, st.2.erase key)
      else (st.1, st.2.erase key)
    else (st.1, st.2.insert key { asset with balance := withDays asset.balance (days - 1) })

/-- One alias, charged to its owner. Id zero is the generator cell. -/
def sweepAlias (fee : UInt64) (st : Sweep × FMap UInt32 Alias) (id : UInt32) : Sweep × FMap UInt32 Alias :=
  match st.2.lookup id with
  | none => st
  | some al =>
    if id = 0 then st
    else
      match st.1.accounts.find al.owner with
      | none => (st.1, st.2.erase id)
      | some acc =>
        if acc.getBalance ≤ asInt64 fee then
          let a := if acc.aliasId = id then st.1.accounts.setAliasId al.owner 0 else st.1.accounts
          ({ st.1 with accounts := a }, st.2.erase id)
        else (st.1.charge al.owner acc fee, st.2)

/-- The key names during a sweep, with the number reclaimed. -/
structure KeyNameSweep where
  sweep : Sweep
  store : FMap Hash KeyNameData
  reclaimed : Nat

/-- One key name, charged to the account of its key. -/
def sweepKeyName (fee : UInt64) (st : KeyNameSweep) (key : Hash) : KeyNameSweep :=
  match st.store.lookup key with
  | none => st
  | some name =>
    if name = ByteArr.zero 32 then { st with store := st.store.erase key }
    else
      match st.sweep.rent (getHashPrefix key) fee with
      | some w => { st with sweep := w }
      | none => { st with store := st.store.erase key, reclaimed := st.reclaimed + 1 }

/-- The orders in which the maps are walked, and the one the reverse index is rebuilt in. -/
structure DailyOrder where
  accounts : List HashPrefix
  assets : List Hash
  aliases : List UInt32
  keyNames : List Hash
  reverse : List Hash

section passes

variable (s : CesServer) (order : DailyOrder)

def sweepAccounts : CesServer :=
  let fee := s.discountFee .accountRent s.cfg.feeAccount
  { s with accounts := (order.accounts.foldl (fun (w : Sweep) id => w.account fee id) (Sweep.start s.accounts)).settle }

def sweepAssets : CesServer :=
  let r := order.assets.foldl (sweepAsset (s.discountFee .assetRent s.cfg.feeAsset)) (.start s.accounts, s.assets)
  { s with accounts := r.1.settle, assets := r.2 }

def sweepAliases : CesServer :=
  let r := order.aliases.foldl (sweepAlias (s.discountFee .accountRent s.cfg.feeAlias)) (.start s.accounts, s.aliases)
  { s with accounts := r.1.settle, aliases := r.2 }

def sweepKeyNames : CesServer :=
  let r := order.keyNames.foldl (sweepKeyName (s.discountFee .accountRent s.cfg.feeKeyName))
    ⟨.start s.accounts, s.keyNames.store, 0⟩
  let names : KeyNames := { s.keyNames with store := r.store }
  { s with
    accounts := r.sweep.settle
    keyNames := if 0 < r.reclaimed then names.rebuildReverse order.reverse else names }

def topUp : CesServer := { s with accounts := s.accounts.topUpServerAccount s.serverKey }

/-- `dailyTaskTick`. -/
def dailyTaskTick : CesServer :=
  topUp (sweepKeyNames (sweepAliases (sweepAssets (sweepAccounts s order) order) order) order)

end passes

/-! ### The tally -/

namespace Accounts

theorem balance_setCell (a : Accounts) (id x : HashPrefix) (acc : Account) :
    (a.setCell id acc).balance x = if x = id then acc.getBalance else a.balance x :=
  balance_put a id x acc 0

theorem balance_eraseCell (a : Accounts) (id x : HashPrefix) :
    (a.eraseCell id).balance x = if x = id then 0 else a.balance x :=
  balance_drop a id x 0

theorem credits_eraseCell (a : Accounts) (id : HashPrefix) :
    (a.eraseCell id).credits = a.credits - max 0 (a.balance id) :=
  credits_drop a id 0

end Accounts

namespace Sweep

/-- The tally is right once `delta` is added, and no account that was not negative has become so. -/
structure Sound (a : Accounts) (w : Sweep) : Prop where
  pending : int64 (w.accounts.totalCredits + w.delta) = int64 w.accounts.credits
  nonneg : ∀ id, 0 ≤ a.balance id → 0 ≤ w.accounts.balance id

variable {a : Accounts} {w : Sweep} {id : HashPrefix} {acc : Account} {fee : UInt64}

theorem sound_start (h : a.Tallied) : Sound a (start a) := by
  refine ⟨?_, fun _ hid => hid⟩
  have hsum : int64 (a.totalCredits + 0) = int64 a.credits := by rw [h, int64_add_int64, add_zero]
  exact hsum

theorem tallied_settle (h : Sound a w) : w.settle.Tallied := h.pending

/-- A write whose change of the credits goes to `delta`. -/
theorem Sound.write {b : Accounts} {d : Int} (h : Sound a w) (htotal : b.totalCredits = w.accounts.totalCredits)
    (hcredits : b.credits = w.accounts.credits + d)
    (hnonneg : ∀ x, 0 ≤ w.accounts.balance x → 0 ≤ b.balance x) : Sound a ⟨b, int64 (w.delta + d)⟩ := by
  refine ⟨?_, fun x hx => hnonneg x (h.nonneg x hx)⟩
  calc int64 (b.totalCredits + int64 (w.delta + d))
      = int64 (int64 (w.accounts.totalCredits + w.delta) + d) := by
        rw [htotal, add_comm, int64_add_int64, int64_add_int64]
        congr 1
        ring
    _ = int64 b.credits := by rw [h.pending, int64_add_int64, hcredits]

theorem sound_charge (h : Sound a w) (hfind : w.accounts.find id = some acc) (hfee : fee.toNat < 2 ^ 51)
    (hpays : asInt64 fee < acc.getBalance) : Sound a (w.charge id acc fee) := by
  have hbal := Accounts.balance_of_find hfind
  have hhigh := acc.getBalance_upper
  have hcast : asInt64 fee = fee.toNat := asInt64_of_lt (by omega)
  unfold charge
  rw [hcast] at hpays ⊢
  rw [sub_eq_add_neg w.delta]
  have hstored : (acc.setBalance (acc.getBalance - fee.toNat)).getBalance = acc.getBalance - fee.toNat := by
    rw [Account.getBalance_setBalance]
    exact wrap48_of_range (by unfold balanceMin; omega) (by omega)
  have hcredits := Accounts.credits_setCell w.accounts id (acc.setBalance (acc.getBalance - fee.toNat))
  rw [hstored, hbal] at hcredits
  refine h.write rfl (by omega) fun x hx => ?_
  rw [Accounts.balance_setCell, hstored]
  split_ifs
  · omega
  · exact hx

theorem sound_expire (h : Sound a w) (hfind : w.accounts.find id = some acc) (hnonneg : 0 ≤ acc.getBalance) :
    Sound a (w.expire id acc.getBalance) := by
  have hcredits := Accounts.credits_eraseCell w.accounts id
  rw [Accounts.balance_of_find hfind] at hcredits
  unfold expire
  rw [sub_eq_add_neg w.delta]
  refine h.write rfl (by omega) fun x hx => ?_
  rw [Accounts.balance_eraseCell]
  split_ifs
  · exact le_refl 0
  · exact hx

/-- A write that changes neither the tally nor the credits. -/
theorem Sound.same {b : Accounts} (h : Sound a w) (htotal : b.totalCredits = w.accounts.totalCredits)
    (hcredits : b.credits = w.accounts.credits) (hnonneg : ∀ x, 0 ≤ w.accounts.balance x → 0 ≤ b.balance x) :
    Sound a { w with accounts := b } := by
  refine ⟨?_, fun x hx => hnonneg x (h.nonneg x hx)⟩
  change int64 (b.totalCredits + w.delta) = int64 b.credits
  rw [htotal, hcredits]
  exact h.pending

theorem sound_account (h : Sound a w) (hfee : fee.toNat < 2 ^ 51) : Sound a (w.account fee id) := by
  unfold account
  cases hfind : w.accounts.find id with
  | none => exact h
  | some acc =>
    have hbal := Accounts.balance_of_find hfind
    dsimp only
    by_cases hneg : acc.getBalance < 0
    · rw [if_pos hneg]
      split_ifs
      · have hcredits := Accounts.credits_eraseCell w.accounts id
        refine h.same rfl (by omega) fun x hx => ?_
        rw [Accounts.balance_eraseCell]
        split_ifs
        · exact le_refl 0
        · exact hx
      · have hcredits := Accounts.credits_setCell w.accounts id { acc with nonce := acc.nonce - 1 }
        rw [Account.getBalance_setNonce] at hcredits
        refine h.same rfl (by omega) fun x hx => ?_
        rw [Accounts.balance_setCell, Account.getBalance_setNonce]
        split_ifs with hx'
        · rwa [hx', hbal] at hx
        · exact hx
    · rw [if_neg hneg]
      generalize hcast : asInt64 fee = signedFee
      by_cases hgone : acc.getBalance ≤ signedFee
      · rw [if_pos hgone]
        exact sound_expire h hfind (by omega)
      · rw [if_neg hgone]
        exact sound_charge h hfind hfee (by omega)

theorem sound_rent {owner : HashPrefix} {w' : Sweep} (h : Sound a w) (hfee : fee.toNat < 2 ^ 51)
    (hrent : w.rent owner fee = some w') : Sound a w' := by
  unfold rent at hrent
  cases hfind : w.accounts.find owner with
  | none =>
    rw [hfind] at hrent
    cases hrent
  | some acc =>
    rw [hfind] at hrent
    dsimp only at hrent
    generalize hcast : asInt64 fee = signedFee at hrent
    split_ifs at hrent with hpoor
    cases hrent
    exact sound_charge h hfind hfee (by omega)

end Sweep

theorem sound_sweepAsset {a : Accounts} {st : Sweep × FMap Hash Asset} {fee : UInt64} (h : Sweep.Sound a st.1)
    (hfee : fee.toNat < 2 ^ 51) (key : Hash) : Sweep.Sound a (sweepAsset fee st key).1 := by
  unfold sweepAsset
  cases st.2.lookup key with
  | none => exact h
  | some asset =>
    dsimp only
    split_ifs
    · cases hrent : st.1.rent asset.ownerId fee with
      | none => exact h
      | some w => exact Sweep.sound_rent h hfee hrent
    · exact h
    · exact h

theorem sound_sweepAlias {a : Accounts} {st : Sweep × FMap UInt32 Alias} {fee : UInt64} (h : Sweep.Sound a st.1)
    (hfee : fee.toNat < 2 ^ 51) (id : UInt32) : Sweep.Sound a (sweepAlias fee st id).1 := by
  unfold sweepAlias
  cases st.2.lookup id with
  | none => exact h
  | some al =>
    dsimp only
    by_cases hzero : id = 0
    · rw [if_pos hzero]
      exact h
    rw [if_neg hzero]
    cases hfind : st.1.accounts.find al.owner with
    | none => exact h
    | some acc =>
      dsimp only
      generalize hcast : asInt64 fee = signedFee
      by_cases hpoor : acc.getBalance ≤ signedFee
      · rw [if_pos hpoor]
        split_ifs
        · refine h.same ?_ ?_ fun x hx => ?_
          · exact Accounts.totalCredits_setAliasId _ _ _
          · exact Accounts.credits_setAliasId _ _ _
          · rwa [Accounts.balance_setAliasId]
        · exact h
      · rw [if_neg hpoor]
        exact Sweep.sound_charge h hfind hfee (by omega)

theorem sound_sweepKeyName {a : Accounts} {st : KeyNameSweep} {fee : UInt64} (h : Sweep.Sound a st.sweep)
    (hfee : fee.toNat < 2 ^ 51) (key : Hash) : Sweep.Sound a (sweepKeyName fee st key).sweep := by
  unfold sweepKeyName
  cases st.store.lookup key with
  | none => exact h
  | some name =>
    dsimp only
    split_ifs
    · exact h
    · cases hrent : st.sweep.rent (getHashPrefix key) fee with
      | none => exact h
      | some w => exact Sweep.sound_rent h hfee hrent

/-- What one walk over a map keeps, for a walk whose steps keep `Sound`. -/
theorem tallied_walk {σ κ : Type} {a : Accounts} {step : σ → κ → σ} (sweep : σ → Sweep)
    (hstep : ∀ st k, Sweep.Sound a (sweep st) → Sweep.Sound a (sweep (step st k))) {init : σ}
    (hinit : Sweep.Sound a (sweep init)) (l : List κ) :
    (sweep (l.foldl step init)).settle.Tallied ∧
      ∀ id, 0 ≤ a.balance id → 0 ≤ (sweep (l.foldl step init)).settle.balance id := by
  have hsound : Sweep.Sound a (sweep (l.foldl step init)) :=
    List.foldlRecOn l step hinit fun st hst k _ => hstep st k hst
  exact ⟨Sweep.tallied_settle hsound, hsound.nonneg⟩

section passes

variable {s : CesServer} (order : DailyOrder) (h : s.accounts.Tallied)
include h

theorem tallied_sweepAccounts : (sweepAccounts s order).accounts.Tallied ∧
    ∀ id, 0 ≤ s.accounts.balance id → 0 ≤ (sweepAccounts s order).accounts.balance id :=
  tallied_walk id (fun _ _ hst => Sweep.sound_account hst (s.discountFee_lt _ _)) (Sweep.sound_start h) _

theorem tallied_sweepAssets : (sweepAssets s order).accounts.Tallied ∧
    ∀ id, 0 ≤ s.accounts.balance id → 0 ≤ (sweepAssets s order).accounts.balance id :=
  tallied_walk Prod.fst (fun _ key hst => sound_sweepAsset hst (s.discountFee_lt _ _) key)
    (Sweep.sound_start h) _

theorem tallied_sweepAliases : (sweepAliases s order).accounts.Tallied ∧
    ∀ id, 0 ≤ s.accounts.balance id → 0 ≤ (sweepAliases s order).accounts.balance id :=
  tallied_walk Prod.fst (fun _ id hst => sound_sweepAlias hst (s.discountFee_lt _ _) id)
    (Sweep.sound_start h) _

theorem tallied_sweepKeyNames : (sweepKeyNames s order).accounts.Tallied ∧
    ∀ id, 0 ≤ s.accounts.balance id → 0 ≤ (sweepKeyNames s order).accounts.balance id :=
  tallied_walk KeyNameSweep.sweep (fun _ key hst => sound_sweepKeyName hst (s.discountFee_lt _ _) key)
    (Sweep.sound_start h) _

/-- The daily pass keeps the tally unless the server's own account is a pending payment. -/
theorem tallied_dailyTaskTick (hclean : 0 ≤ s.accounts.balance (getHashPrefix s.serverKey)) :
    (dailyTaskTick s order).accounts.Tallied := by
  obtain ⟨h1, n1⟩ := tallied_sweepAccounts order h
  obtain ⟨h2, n2⟩ := tallied_sweepAssets order h1
  obtain ⟨h3, n3⟩ := tallied_sweepAliases order h2
  obtain ⟨h4, n4⟩ := tallied_sweepKeyNames order h3
  exact Accounts.tallied_topUpServerAccount h4 (n4 _ (n3 _ (n2 _ (n1 _ hclean))))

end passes

end Ces
