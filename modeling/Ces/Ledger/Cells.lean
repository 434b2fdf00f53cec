import Ces.Ledger.Transfer
import Ces.Lib.Layout

/-!
# Assets, aliases and key names

The signed operations on the rented cells. Each is a paid operation whose writes stay in its own map; only
`buyAsset` moves value between accounts, and an alias leaves its id in the account that owns it.
-/

namespace Ces

open Ces.Lib CesServer

/-! ### Assets -/

def createAsset (s : CesServer) (originKey : Hash) (ownerId : HashPrefix) (assetId : Hash) (content : AssetData)
    (balance : UInt16) (providedNonce : UInt32) (rentFee errFee : Int) : Rc × CesServer :=
  let cost := s.attenuatedFundCost .assetRent (resolveFee rentFee (asInt64 s.cfg.feeAsset))
    (2 + (assetDays balance).toUInt32) 0
  if assetId = ByteArr.zero 32 then (.badInput, s)
  else
    s.paidOp (getHashPrefix originKey) cost providedNonce (s.errorFee errFee) <|
      if (s.assets.lookup assetId).isSome then .charged .assetExists
      else if s.cfg.maxAsset ≤ s.assets.size then .refused .internal
      else
        .accepted { s with
          assets := s.assets.insert assetId ⟨ownerId, content, VmHost.newAssetBalance balance false, 0⟩ }

/-- The cells of a range, written in order. -/
def insertRange (assets : FMap Hash Asset) (ownerId : HashPrefix) (firstKey : Hash) (count : Nat)
    (days : UInt16) : FMap Hash Asset :=
  (List.range count).foldl (fun m i =>
    m.insert (VmHost.rangeSetCellIndex firstKey i)
      ⟨ownerId, VmHost.rangeContent count i, VmHost.newAssetBalance days false, 0⟩) assets

def createAssetRange (s : CesServer) (originKey : Hash) (ownerId : HashPrefix) (firstKey : Hash)
    (count : UInt32) (days : UInt16) (providedNonce : UInt32) (rentFee errFee : Int) : Rc × CesServer :=
  let perCell := s.attenuatedFundCost .assetRent (resolveFee rentFee (asInt64 s.cfg.feeAsset))
    (2 + (assetDays days).toUInt32) 0
  if s.accounts.find (getHashPrefix originKey) = none then (.originNotFound, s)
  else if count = 0 ∨ cesvmMaxAssetRange < count.toNat ∨ firstKey = ByteArr.zero 32 then (.badInput, s)
  else
    s.paidOp (getHashPrefix originKey) (perCell * count.toUInt64) providedNonce (s.errorFee errFee) <|
      if s.cfg.maxAsset < s.assets.size + count.toNat then .charged .internal
      else if (List.range count.toNat).any fun i =>
          (s.assets.lookup (VmHost.rangeSetCellIndex firstKey i)).isSome then .charged .assetExists
      else .accepted { s with assets := insertRange s.assets ownerId firstKey count.toNat days }

/-- A change of an asset by its owner; `sealable` changes stop at the immutable bit. -/
def changeOwned (s : CesServer) (origin : HashPrefix) (assetId : Hash) (sealable : Bool)
    (change : Asset → Asset) : Outcome :=
  match s.assets.lookup assetId with
  | none => .charged .assetNotFound
  | some asset =>
    if asset.ownerId ≠ origin then .charged .notOwner
    else if sealable && isAssetImmutable asset.balance then .charged .immutable
    else .accepted { s with assets := s.assets.insert assetId (change asset) }

def updateAsset (s : CesServer) (originKey assetId : Hash) (newOwnerId : HashPrefix) (content : AssetData)
    (price : UInt32) (providedNonce : UInt32) (updateFee errFee : Int) : Rc × CesServer :=
  s.paidOp (getHashPrefix originKey) (asUInt64 (s.discountedFlatFee updateFee s.cfg.feeAsset .assetRent))
    providedNonce (s.errorFee errFee) <|
    changeOwned s (getHashPrefix originKey) assetId true fun asset =>
      { asset with ownerId := newOwnerId, content := content, price := price }

/-- The immutable bit does not stop a sale or a new price. -/
def updateAssetMeta (s : CesServer) (originKey assetId : Hash) (newOwnerId : HashPrefix) (price : UInt32)
    (providedNonce : UInt32) (updateFee errFee : Int) : Rc × CesServer :=
  s.paidOp (getHashPrefix originKey) (asUInt64 (s.discountedFlatFee updateFee s.cfg.feeTx .tx)) providedNonce
    (s.errorFee errFee) <|
    changeOwned s (getHashPrefix originKey) assetId false fun asset =>
      { asset with price := price, ownerId := newOwnerId }

def updateAssetFast (s : CesServer) (originKey assetId : Hash) (content : AssetData) (providedNonce : UInt32)
    (fastUpdateFee errFee : Int) : Rc × CesServer :=
  s.paidOp (getHashPrefix originKey) (asUInt64 (s.discountedFlatFee fastUpdateFee s.cfg.feeAsset .assetRent))
    providedNonce (s.errorFee errFee) <|
    changeOwned s (getHashPrefix originKey) assetId true fun asset => { asset with content := content }

/-- The flags of an asset with other days. -/
def withDays (balance days : UInt16) : UInt16 :=
  assetBalance days (isAssetPrivate balance) (isAssetOwned balance) (isAssetImmutable balance)
    (isAssetOwnerPays balance)

/-- Anyone may fund an asset; the days stop at 4095 and only those granted are billed. -/
def fundAsset (s : CesServer) (originKey assetId : Hash) (balance : UInt16) (providedNonce : UInt32)
    (fundFee rentFee errFee : Int) : Rc × CesServer :=
  let held := (s.assets.lookup assetId).elim 0 fun asset => (assetDays asset.balance).toNat
  let granted := min 0x0FFF (held + balance.toNat) - held
  let rentCost := s.attenuatedFundCost .assetRent (resolveFee rentFee (asInt64 s.cfg.feeAsset))
    (UInt32.ofNat granted) (UInt32.ofNat held)
  s.paidOp (getHashPrefix originKey)
    (rentCost + asUInt64 (s.discountedFlatFee fundFee s.cfg.feeTx .tx)) providedNonce (s.errorFee errFee) <|
    match s.assets.lookup assetId with
    | none => .charged .assetNotFound
    | some asset =>
      let newDays := min ((assetDays asset.balance).toNat + balance.toNat) 0x0FFF
      .accepted { s with
        assets := s.assets.insert assetId
          { asset with balance := withDays asset.balance (UInt16.ofNat newDays) } }

def setAssetOwnerPays (s : CesServer) (originKey assetId : Hash) (ownerPays : Bool) (providedNonce : UInt32)
    (fee errFee : Int) : Rc × CesServer :=
  s.paidOp (getHashPrefix originKey) (asUInt64 (s.discountedFlatFee fee s.cfg.feeTx .tx)) providedNonce
    (s.errorFee errFee) <|
    changeOwned s (getHashPrefix originKey) assetId false fun asset =>
      { asset with
        balance := assetBalance (assetDays asset.balance) (isAssetPrivate asset.balance)
          (isAssetOwned asset.balance) (isAssetImmutable asset.balance) ownerPays }

/-- A new owner; the asset leaves the market. -/
def transferOwnership (newOwnerId : HashPrefix) (asset : Asset) : Asset :=
  { asset with ownerId := newOwnerId, price := 0 }

def giveAsset (s : CesServer) (originKey assetId : Hash) (newOwnerId : HashPrefix) (providedNonce : UInt32)
    (giveFee errFee : Int) : Rc × CesServer :=
  s.paidOp (getHashPrefix originKey) (asUInt64 (s.discountedFlatFee giveFee s.cfg.feeTx .tx)) providedNonce
    (s.errorFee errFee) <|
    changeOwned s (getHashPrefix originKey) assetId false (transferOwnership newOwnerId)

/-- The accounts after a sale: a seller that is gone is not paid. -/
def payForAsset (a : Accounts) (buyer seller : HashPrefix) (price fee : UInt64) : Accounts :=
  (a.debit buyer (price + fee)).credit seller price

/-- The purchase of an asset at a price the buyer has agreed to. -/
def buyAt (s : CesServer) (buyer : HashPrefix) (assetId : Hash) (asset : Asset) (price fee : UInt64)
    (providedNonce : UInt32) (errFee : Int) : Rc × CesServer :=
  s.spend buyer price fee providedNonce errFee <|
    if creditWouldOverflow (s.accounts.balance asset.ownerId) price ∧ s.accounts.find asset.ownerId ≠ none then
      s.refuse buyer errFee .balanceOverflow
    else
      (.ok, { s with
        accounts := payForAsset s.accounts buyer asset.ownerId price fee
        assets := s.assets.insert assetId (transferOwnership buyer asset) })

def buyAsset (s : CesServer) (originKey assetId : Hash) (priceLimit : UInt64) (providedNonce : UInt32)
    (buyFee errFee : Int) : Rc × CesServer :=
  let buyer := getHashPrefix originKey
  let errFee := s.errorFee errFee
  if s.accounts.find buyer = none then (.originNotFound, s)
  else
    match s.assets.lookup assetId with
    | none => s.refuse buyer errFee .assetNotFound
    | some asset =>
      if asset.ownerId = buyer then s.refuse buyer errFee .invalidTargetAccount
      else if storedToRealPrice asset.price = 0 then s.refuse buyer errFee .notForSale
      else if priceLimit < storedToRealPrice asset.price then s.refuse buyer errFee .insufficientPayment
      else
        buyAt s buyer assetId asset (storedToRealPrice asset.price)
          (asUInt64 (s.discountedFlatFee buyFee s.cfg.feeTx .tx)) providedNonce errFee

/-! ### The balance word of an asset -/

section word

variable (days : UInt16) (priv assetOwned immutable ownerPays : Bool)

/-- A mask outside the day field sees only the flags. -/
theorem assetBalance_and (mask : UInt16) (hmask : 0x0FFF &&& mask = 0) :
    assetBalance days priv assetOwned immutable ownerPays &&& mask =
      assetBalance 0 priv assetOwned immutable ownerPays &&& mask := by
  have hdays : ∀ d : UInt16, d &&& 0x0FFF &&& mask = 0 := fun d => by
    rw [UInt16.and_assoc, hmask]
    exact UInt16.and_zero
  unfold assetBalance
  rw [uint16_or_and _ (days &&& 0x0FFF), uint16_or_and _ (0 &&& 0x0FFF), hdays, hdays]

theorem isAssetPrivate_assetBalance :
    isAssetPrivate (assetBalance days priv assetOwned immutable ownerPays) = priv := by
  unfold isAssetPrivate
  rw [assetBalance_and _ _ _ _ _ 0x8000 (by decide)]
  revert priv assetOwned immutable ownerPays
  decide

theorem isAssetImmutable_assetBalance :
    isAssetImmutable (assetBalance days priv assetOwned immutable ownerPays) = immutable := by
  unfold isAssetImmutable
  rw [assetBalance_and _ _ _ _ _ 0x2000 (by decide)]
  revert priv assetOwned immutable ownerPays
  decide

end word

/-! ### Aliases -/

/-- The next id, wrapping past the reserved zero. -/
def bumpAliasId (id : UInt32) : UInt32 := if id = 0xFFFFFFFF then 1 else id + 1

/-- The first free id at or after `id`. The fuel is one more than the ids that can be skipped. -/
def freeAliasId (aliases : FMap UInt32 Alias) : Nat → UInt32 → UInt32
  | 0, id => id
  | fuel + 1, id =>
    if id = 0 ∨ (aliases.lookup id).isSome then freeAliasId aliases fuel (bumpAliasId id) else id

/-- The generator cell, seeded when it is missing. -/
def aliasGenerator (aliases : FMap UInt32 Alias) : Alias :=
  (aliases.lookup 0).getD ⟨ByteArr.zero 8, ByteArr.zero 8, aliasOpSystem, ByteArr.zero 1002⟩

def allocAliasId (aliases : FMap UInt32 Alias) : UInt32 × FMap UInt32 Alias :=
  let gen := aliasGenerator aliases
  let next := UInt32.ofNat (leNat (gen.content.slice 0 4).bytes)
  let id := freeAliasId aliases (aliases.size + 2) (if next = 0 then 1 else next)
  (id, aliases.insert 0 { gen with content := gen.content.patch 0 (leBytes 4 (bumpAliasId id).toNat) })

/-- Point an account at its alias. -/
def Accounts.setAliasId (a : Accounts) (id : HashPrefix) (aliasId : UInt32) : Accounts :=
  match a.find id with
  | none => a
  | some acc => { a with store := a.store.insert id { acc with aliasId := aliasId } }

/-- The cell a patch by `origin` goes to: whether it has to be created, and the value to patch. Id zero is
the signer's own alias, where a stale link counts as none. -/
def aliasTarget (s : CesServer) (origin : HashPrefix) (acc : Account) (aliasId : UInt32) (offset : UInt16) :
    Except Rc (Bool × UInt32 × Alias) :=
  let targetId := if aliasId = 0 then acc.aliasId else aliasId
  let live := if targetId = 0 then none else s.aliases.lookup targetId
  let fresh : Alias := ⟨origin, ByteArr.zero 8, 0, ByteArr.zero 1002⟩
  if aliasId = 0 then
    match live with
    | some al => if al.owner = origin then .ok (false, targetId, al) else .ok (true, targetId, fresh)
    | none => .ok (true, targetId, fresh)
  else
    match live with
    | none => .error .aliasNotFound
    | some al =>
      if al.owner = origin then .ok (false, targetId, al)
      else if al.editor = origin then
        if offset.toNat < aliasPatchMinEditor then .error .notOwner else .ok (false, targetId, al)
      else .error .notOwner

/-- Write the patched value, under a new id when the cell has to be created. -/
def commitAlias (s : CesServer) (origin : HashPrefix) (create : Bool) (targetId : UInt32) (next : Alias) :
    Outcome :=
  if !create then .accepted { s with aliases := s.aliases.insert targetId next }
  else if s.cfg.maxAlias ≤ s.aliases.size then .charged .internal
  else
    .accepted { s with
      aliases := (allocAliasId s.aliases).2.insert (allocAliasId s.aliases).1 next
      accounts := s.accounts.setAliasId origin (allocAliasId s.aliases).1 }

structure SetAliasResult where
  rcode : Rc
  outAliasId : UInt32
  server : CesServer

def setAlias (s : CesServer) (originKey : Hash) (aliasId : UInt32) (offset : UInt16) (bytes : Bytes)
    (providedNonce : UInt32) (fee errFee : Int) : SetAliasResult :=
  let origin := getHashPrefix originKey
  match s.accounts.find origin with
  | none => ⟨.originNotFound, 0, s⟩
  | some acc =>
    if offset.toNat < aliasPatchMinOwner ∨ aliasValueBytes < offset.toNat + bytes.length then ⟨.badInput, 0, s⟩
    else
      match aliasTarget s origin acc aliasId offset with
      | .error rc => ⟨rc, 0, s⟩
      | .ok (create, targetId, old) =>
        let next := Alias.ofImage (old.image.patch offset.toNat bytes)
        if !VmHost.hookTargetOk s next origin then ⟨.hookTarget, 0, s⟩
        else
          let r := s.paidOp origin (asUInt64 (s.discountedFlatFee fee s.cfg.feeAlias .accountRent)) providedNonce
            (s.errorFee errFee) (commitAlias s origin create targetId next)
          ⟨r.1, if r.1 ≠ .ok then 0 else if create then (allocAliasId s.aliases).1 else targetId, r.2⟩

def deleteAlias (s : CesServer) (originKey : Hash) (providedNonce : UInt32) (errFee : Int) : Rc × CesServer :=
  let origin := getHashPrefix originKey
  let id := (s.accounts.find origin).elim 0 (·.aliasId)
  s.paidOp origin (asUInt64 (s.discountedFlatFee (-1) s.cfg.feeQuery .query)) providedNonce (s.errorFee errFee) <|
    if id = 0 ∨ s.aliases.lookup id = none then .charged .aliasNotFound
    else
      .accepted { s with aliases := s.aliases.erase id, accounts := s.accounts.setAliasId origin 0 }

/-! ### Key names -/

/-- The code a failed registration is reported with. -/
def registerCode : KeyNames.RegisterResult → Rc
  | .ok => .ok
  | .nameTaken => .keynameTaken
  | .capacityFull => .storeFull
  | .badName => .badInput

def registerKeyName (s : CesServer) (originKey : Hash) (name : Bytes) (providedNonce : UInt32) (errFee : Int) :
    Rc × CesServer :=
  s.paidOp (getHashPrefix originKey) (asUInt64 (s.discountedFlatFee (-1) s.cfg.feeKeyName .accountRent))
    providedNonce (s.errorFee errFee) <|
    match s.keyNames.registerName originKey (ByteArr.ofList 32 name) s.cfg.maxKeyName with
    | (.ok, names) => .accepted { s with keyNames := names }
    | (res, _) => .charged (registerCode res)

def clearKeyName (s : CesServer) (originKey : Hash) (providedNonce : UInt32) (errFee : Int) : Rc × CesServer :=
  s.paidOp (getHashPrefix originKey) (asUInt64 (s.discountedFlatFee (-1) s.cfg.feeQuery .query)) providedNonce
    (s.errorFee errFee) <|
    match s.keyNames.clearName originKey with
    | (true, names) => .accepted { s with keyNames := names }
    | (false, _) => .charged .keynameNotFound

/-! ### The tally -/

/-- Linking an alias changes no balance. -/
theorem Accounts.balance_setAliasId (a : Accounts) (id x : HashPrefix) (aliasId : UInt32) :
    (a.setAliasId id aliasId).balance x = a.balance x := by
  unfold setAliasId
  cases hfind : a.find id with
  | none => rfl
  | some acc =>
    unfold balance find
    dsimp only
    rw [FMap.lookup_insert_eq]
    split_ifs with hx
    · subst hx
      unfold find at hfind
      rw [hfind]
      rfl
    · rfl

theorem Accounts.totalCredits_setAliasId (a : Accounts) (id : HashPrefix) (aliasId : UInt32) :
    (a.setAliasId id aliasId).totalCredits = a.totalCredits := by
  unfold setAliasId
  cases a.find id <;> rfl

theorem Accounts.credits_setAliasId (a : Accounts) (id : HashPrefix) (aliasId : UInt32) :
    (a.setAliasId id aliasId).credits = a.credits := by
  unfold setAliasId
  cases hfind : a.find id with
  | none => rfl
  | some acc =>
    have hput := credits_put a id { acc with aliasId := aliasId } 0
    have hsame : max 0 ({ acc with aliasId := aliasId } : Account).getBalance = max 0 (a.balance id) := by
      rw [balance_of_find hfind]
      rfl
    have hcredits : (a.put id { acc with aliasId := aliasId } 0).credits = a.credits := by omega
    exact hcredits

theorem Accounts.tallied_setAliasId {a : Accounts} (h : a.Tallied) (id : HashPrefix) (aliasId : UInt32) :
    (a.setAliasId id aliasId).Tallied := by
  unfold Tallied
  rw [totalCredits_setAliasId, credits_setAliasId]
  exact h

section tally

variable {s : CesServer} {origin : HashPrefix} {cost : UInt64} {nonce : UInt32} {errFee : Int}

/-- An operation that only writes to other maps keeps the tally. -/
theorem tallied_paidOp_of_same {outcome : Outcome} (h : s.accounts.Tallied)
    (hsame : ∀ t, outcome = .accepted t → t.accounts = s.accounts) :
    (s.paidOp origin cost nonce (s.errorFee errFee) outcome).2.accounts.Tallied := by
  refine tallied_paidOp h fun t ht => ?_
  rw [hsame t ht]
  exact ⟨h, rfl⟩

theorem changeOwned_accounts {assetId : Hash} {sealable : Bool} {change : Asset → Asset} {t : CesServer}
    (h : changeOwned s origin assetId sealable change = .accepted t) : t.accounts = s.accounts := by
  unfold changeOwned at h
  cases hasset : s.assets.lookup assetId with
  | none =>
    rw [hasset] at h
    cases h
  | some asset =>
    rw [hasset] at h
    dsimp only at h
    split_ifs at h
    cases h
    rfl

theorem tallied_changeOwned {assetId : Hash} {sealable : Bool} {change : Asset → Asset}
    (h : s.accounts.Tallied) :
    (s.paidOp origin cost nonce (s.errorFee errFee)
      (changeOwned s origin assetId sealable change)).2.accounts.Tallied :=
  tallied_paidOp_of_same h fun _ ht => changeOwned_accounts ht

variable (h : s.accounts.Tallied)
include h

theorem tallied_createAsset (originKey : Hash) (ownerId : HashPrefix) (assetId : Hash) (content : AssetData)
    (balance : UInt16) (providedNonce : UInt32) (rentFee errFee : Int) :
    (createAsset s originKey ownerId assetId content balance providedNonce rentFee errFee).2.accounts.Tallied := by
  unfold createAsset
  dsimp only
  by_cases hzero : assetId = ByteArr.zero 32
  · rw [if_pos hzero]
    exact h
  · rw [if_neg hzero]
    refine tallied_paidOp_of_same h fun t ht => ?_
    split_ifs at ht
    cases ht
    rfl

theorem tallied_createAssetRange (originKey : Hash) (ownerId : HashPrefix) (firstKey : Hash) (count : UInt32)
    (days : UInt16) (providedNonce : UInt32) (rentFee errFee : Int) :
    (createAssetRange s originKey ownerId firstKey count days providedNonce rentFee
      errFee).2.accounts.Tallied := by
  unfold createAssetRange
  dsimp only
  by_cases horigin : s.accounts.find (getHashPrefix originKey) = none
  · rw [if_pos horigin]
    exact h
  rw [if_neg horigin]
  by_cases hbad : count = 0 ∨ cesvmMaxAssetRange < count.toNat ∨ firstKey = ByteArr.zero 32
  · rw [if_pos hbad]
    exact h
  · rw [if_neg hbad]
    refine tallied_paidOp_of_same h fun t ht => ?_
    split_ifs at ht
    cases ht
    rfl

theorem tallied_fundAsset (originKey assetId : Hash) (balance : UInt16) (providedNonce : UInt32)
    (fundFee rentFee errFee : Int) :
    (fundAsset s originKey assetId balance providedNonce fundFee rentFee errFee).2.accounts.Tallied := by
  refine tallied_paidOp_of_same h fun t ht => ?_
  cases hasset : s.assets.lookup assetId with
  | none =>
    rw [hasset] at ht
    cases ht
  | some asset =>
    rw [hasset] at ht
    cases ht
    rfl

theorem tallied_setAlias (originKey : Hash) (aliasId : UInt32) (offset : UInt16) (bytes : Bytes)
    (providedNonce : UInt32) (fee errFee : Int) :
    (setAlias s originKey aliasId offset bytes providedNonce fee errFee).server.accounts.Tallied := by
  unfold setAlias
  dsimp only
  cases s.accounts.find (getHashPrefix originKey) with
  | none => exact h
  | some acc =>
    dsimp only
    split_ifs with hbounds
    · exact h
    cases aliasTarget s (getHashPrefix originKey) acc aliasId offset with
    | error rc => exact h
    | ok target =>
      obtain ⟨create, targetId, old⟩ := target
      dsimp only
      split_ifs with hhook
      · exact h
      all_goals
        refine tallied_paidOp h fun t ht => ?_
        unfold commitAlias at ht
        split_ifs at ht <;> cases ht
        · exact ⟨h, rfl⟩
        · exact ⟨Accounts.tallied_setAliasId h _ _, Accounts.balance_setAliasId _ _ _ _⟩

theorem tallied_deleteAlias (originKey : Hash) (providedNonce : UInt32) (errFee : Int) :
    (deleteAlias s originKey providedNonce errFee).2.accounts.Tallied := by
  refine tallied_paidOp h fun t ht => ?_
  split_ifs at ht
  cases ht
  exact ⟨Accounts.tallied_setAliasId h _ _, Accounts.balance_setAliasId _ _ _ _⟩

theorem tallied_registerKeyName (originKey : Hash) (name : Bytes) (providedNonce : UInt32) (errFee : Int) :
    (registerKeyName s originKey name providedNonce errFee).2.accounts.Tallied := by
  refine tallied_paidOp_of_same h fun t ht => ?_
  cases hres : s.keyNames.registerName originKey (ByteArr.ofList 32 name) s.cfg.maxKeyName with
  | mk res names =>
    rw [hres] at ht
    cases res <;> cases ht
    rfl

theorem tallied_clearKeyName (originKey : Hash) (providedNonce : UInt32) (errFee : Int) :
    (clearKeyName s originKey providedNonce errFee).2.accounts.Tallied := by
  refine tallied_paidOp_of_same h fun t ht => ?_
  cases hres : s.keyNames.clearName originKey with
  | mk cleared names =>
    rw [hres] at ht
    cases cleared <;> cases ht
    rfl

/-- A sale keeps the tally when the seller is no pending payment. -/
theorem tallied_buyAt {buyer : HashPrefix} {assetId : Hash} {asset : Asset} {price fee : UInt64}
    (hseller : 0 ≤ s.accounts.balance asset.ownerId) (hother : asset.ownerId ≠ buyer) (providedNonce : UInt32)
    (errFee : Int) :
    (buyAt s buyer assetId asset price fee providedNonce (s.errorFee errFee)).2.accounts.Tallied := by
  have hcharged := tallied_chargeError h s buyer errFee
  unfold buyAt
  refine spend_rule (P := fun t => t.accounts.Tallied) h hcharged fun hcovers => ?_
  split_ifs
  · exact hcharged
  · have hsum := hcovers.toNat_add
    have hsmall : (price + fee).toNat < 2 ^ 63 := hsum ▸ hcovers.total_lt
    have hcovered : ((price + fee).toNat : Int) ≤ s.accounts.balance buyer := hsum ▸ hcovers.covered
    refine Accounts.tallied_credit (Accounts.tallied_debit h hsmall hcovers.nonneg) (.inl ?_)
    rw [Accounts.balance_debit hsmall hcovered, if_neg hother]
    exact hseller

theorem tallied_buyAsset (originKey assetId : Hash) (priceLimit : UInt64) (providedNonce : UInt32)
    (buyFee errFee : Int)
    (hclean : ∀ asset, s.assets.lookup assetId = some asset → 0 ≤ s.accounts.balance asset.ownerId) :
    (buyAsset s originKey assetId priceLimit providedNonce buyFee errFee).2.accounts.Tallied := by
  have hcharged := tallied_chargeError h s (getHashPrefix originKey) errFee
  unfold buyAsset
  dsimp only
  by_cases hbuyer : s.accounts.find (getHashPrefix originKey) = none
  · rw [if_pos hbuyer]
    exact h
  rw [if_neg hbuyer]
  cases hasset : s.assets.lookup assetId with
  | none => exact hcharged
  | some asset =>
    dsimp only
    generalize storedToRealPrice asset.price = price
    by_cases howner : asset.ownerId = getHashPrefix originKey
    · rw [if_pos howner]
      exact hcharged
    rw [if_neg howner]
    split_ifs
    · exact hcharged
    · exact hcharged
    · exact tallied_buyAt h (hclean asset hasset) howner providedNonce errFee

end tally

end Ces
