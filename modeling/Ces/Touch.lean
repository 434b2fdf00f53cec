import Ces.Lib.Layout
import Ces.Lib.Trace
import Ces.Vm.Host

/-!
# Primitive writes of the ledger

`Cells` is what the operations share: the accounts, the assets and the aliases. Every change of a cell, by a
signed request, a VM run, the gossip, the daily pass or a completion, is one `Touch`; `Touch.act` makes it and
`Touch.Can` says what the code has checked when it makes it. The traces of the operations are lists of touches,
so that an invariant of whole histories needs one case per touch and none per operation.
-/

namespace Ces

open Ces.Lib

structure Cells where
  accounts : FMap HashPrefix Account
  assets : FMap Hash Asset
  aliases : FMap UInt32 Alias

def CesServer.cells (s : CesServer) : Cells := ⟨s.accounts.store, s.assets, s.aliases⟩

def VmHost.cells (h : VmHost) : Cells := h.server.cells

namespace Cells

variable (c : Cells)

/-- The balance of an account, zero when it is missing. -/
def balance (id : HashPrefix) : Int := (c.accounts.lookup id).elim 0 Account.getBalance

/-- Replace an account by a function of it. -/
def mapAccount (id : HashPrefix) (f : Account → Option Account) : Cells :=
  { c with accounts := c.accounts.alter id f }

def putAccount (id : HashPrefix) (acc : Account) : Cells := { c with accounts := c.accounts.insert id acc }

/-- What `hookTargetOk` asks of the asset a hook points at. -/
def hookTargetOk (value : Alias) (setter : HashPrefix) : Bool :=
  !aliasOpIsHook value.op ||
    match c.assets.lookup (value.content.slice 0 32) with
    | none => false
    | some trigger => isAssetImmutable trigger.balance || trigger.ownerId == setter

variable {c}

theorem lookup_mapAccount (id x : HashPrefix) (f : Account → Option Account) :
    (c.mapAccount id f).accounts.lookup x = if x = id then (c.accounts.lookup id).bind f else c.accounts.lookup x :=
  FMap.lookup_alter _ _ _ _

theorem mapAccount_of_none {id : HashPrefix} (h : c.accounts.lookup id = none) (f : Account → Option Account) :
    c.mapAccount id f = c := by
  unfold mapAccount
  rw [FMap.alter_of_none f h]

theorem mapAccount_of_some {id : HashPrefix} {acc acc' : Account} {f : Account → Option Account}
    (h : c.accounts.lookup id = some acc) (hf : f acc = some acc') : c.mapAccount id f = c.putAccount id acc' := by
  unfold mapAccount putAccount
  rw [FMap.alter_of_some f h, hf]
  rfl

end Cells

/-! ### Sources -/

/-- Under what rules the cells are written: the capacities, and whether the daily pass is on. -/
structure Regime where
  maxAcc : Nat
  maxAsset : Nat
  daily : Bool

/-- The rules outside the daily pass. -/
def CesServer.regime (s : CesServer) : Regime := ⟨s.cfg.maxAcc, s.cfg.maxAsset, false⟩

/-- The receipt an outgoing transfer leaves in the account. -/
structure Receipt where
  dest : HashPrefix
  amount : UInt64
  time : UInt32

/-- Who asks for a credit. The transfers and the work reward test the sign of the balance first. -/
inductive CreditSource where
  | transfer
  | work
  | sale
  | refund
  | vostro
  | mint
  | sink
  | leg
  deriving DecidableEq

/-- Who creates an account. The transfers and the work reward count the accounts first. -/
inductive CreateSource where
  | transfer
  | work
  | vostro
  | mint
  | sink
  | leg
  | server
  deriving DecidableEq

/-- Who changes an asset that exists. -/
inductive AssetWriter where
  /-- The owner, by a request the immutable bit stops. -/
  | owner (origin : HashPrefix)
  /-- The owner, changing owner and price only. -/
  | seller (origin : HashPrefix)
  /-- The owner, toggling who pays the rent. -/
  | toggle (origin : HashPrefix)
  | buyer (origin : HashPrefix)
  /-- More prepaid days, or fewer. -/
  | days
  /-- A program, under its caller, its owner and its boot asset. -/
  | program (caller programOwner : HashPrefix) (self : Hash)

/-- What a writer may do to an asset. -/
def AssetWriter.May (old new : Asset) : AssetWriter → Prop
  | .owner origin => old.ownerId = origin ∧ isAssetImmutable old.balance = false ∧ new.balance = old.balance
  | .seller origin => old.ownerId = origin ∧ new.content = old.content ∧ new.balance = old.balance
  | .toggle origin =>
    old.ownerId = origin ∧ ∃ ownerPays, new = { old with
      balance := assetBalance (assetDays old.balance) (isAssetPrivate old.balance) (isAssetOwned old.balance)
        (isAssetImmutable old.balance) ownerPays }
  | .buyer origin => old.price ≠ 0 ∧ new = { old with ownerId := origin, price := 0 }
  | .days =>
    ∃ days, new = { old with
      balance := assetBalance days (isAssetPrivate old.balance) (isAssetOwned old.balance)
        (isAssetImmutable old.balance) (isAssetOwnerPays old.balance) }
  | .program caller programOwner self =>
    checkAssetWriteAuth old caller programOwner self = .ok ∧ new.balance = old.balance

/-! ### Touches -/

inductive Touch where
  /-- `debit` and `debitTransfer`. -/
  | debit (id : HashPrefix) (total : UInt64) (receipt : Option Receipt)
  /-- The same on behalf of an L2 handler, whose amount was compared outside the 64 bits it is debited in. -/
  | debitRaw (id : HashPrefix) (total : UInt64)
  /-- `chargeError`. -/
  | fine (id : HashPrefix) (errFee : Int)
  /-- `settlePayment`. -/
  | settle (id : HashPrefix) (amount : UInt64)
  /-- `credit`. -/
  | credit (source : CreditSource) (id : HashPrefix) (amount : UInt64)
  /-- `createAccount`. -/
  | create (source : CreateSource) (key : Hash) (balance : Int) (nonce : UInt32)
  /-- The account writes of the VM host. -/
  | vmDebit (id : HashPrefix) (amount : UInt64)
  | vmCredit (id : HashPrefix) (amount : UInt64)
  | vmCreate (key : Hash) (amount : UInt64)
  /-- The daily pass on an account: a day less of a pending payment, a day's rent, the end. -/
  | age (id : HashPrefix)
  | rent (id : HashPrefix) (fee : UInt64)
  | expire (id : HashPrefix) (fee : UInt64)
  /-- The server's own balance, set to its target. -/
  | reset (id : HashPrefix) (target : Int)
  /-- A new asset, by a path that counts the assets first or by one that does not. -/
  | createAsset (counted : Bool) (key : Hash) (asset : Asset)
  | writeAsset (writer : AssetWriter) (key : Hash) (asset : Asset)
  /-- An asset out of prepaid days. -/
  | dropAsset (key : Hash)
  /-- The cell of the id generator. -/
  | generator (al : Alias)
  /-- A new alias, and the link of its owner to it. -/
  | createAlias (id : UInt32) (al : Alias)
  /-- A patch in the name of `principal`. -/
  | patchAlias (principal : HashPrefix) (id : UInt32) (al : Alias)
  /-- The end of an alias; an account `holder` that links to it forgets it. -/
  | dropAlias (holder : HashPrefix) (id : UInt32)

namespace Touch

def stamp : Option Receipt → Account → Account
  | none, acc => acc
  | some r, acc => Accounts.xferStamp r.dest r.amount r.time acc

/-- An account after a debit, gone when nothing is left. -/
def debited (total : UInt64) (receipt : Option Receipt) (acc : Account) : Option Account :=
  let newBal := int64 (acc.getBalance - asInt64 total)
  if newBal ≤ 0 then none
  else some (stamp receipt { acc.setBalance newBal with nonce := acc.nonce + 1 })

/-- An account after the error fee. -/
def fined (errFee : Int) (acc : Account) : Option Account :=
  if acc.getBalance < 0 then some acc
  else
    let b := int64 (acc.getBalance - errFee)
    if b ≤ 0 then none else some (acc.setBalance b)

def credited (amount : UInt64) (acc : Account) : Account :=
  acc.setBalance (min balanceMax (acc.getBalance + amount.toNat))

def settled (amount : UInt64) (acc : Account) : Account := { acc.setBalance (asInt64 amount) with nonce := 0 }

/-- An account whose link to the alias `id`, if it has one, is cleared. -/
def unlinked (id : UInt32) (acc : Account) : Option Account :=
  some (if acc.aliasId = id then { acc with aliasId := 0 } else acc)

/-- Make the write. -/
def act (t : Touch) (c : Cells) : Cells :=
  match t with
  | .debit id total receipt => c.mapAccount id (debited total receipt)
  | .debitRaw id total => c.mapAccount id (debited total none)
  | .fine id errFee => c.mapAccount id (fined errFee)
  | .settle id amount => c.mapAccount id fun acc => some (settled amount acc)
  | .credit _ id amount => c.mapAccount id fun acc => some (credited amount acc)
  | .create _ key balance nonce => c.putAccount (getHashPrefix key) (.ofKey key balance nonce)
  | .vmDebit id amount => c.mapAccount id fun acc =>
      some (acc.setBalance (int64 (acc.getBalance - asInt64 amount)))
  | .vmCredit id amount => c.mapAccount id fun acc =>
      some (acc.setBalance (saturatingAddBalance acc.getBalance amount))
  | .vmCreate key amount => c.putAccount (getHashPrefix key) (.ofKey key (asInt64 amount) 0)
  | .age id => c.mapAccount id fun acc => some { acc with nonce := acc.nonce - 1 }
  | .rent id fee => c.mapAccount id fun acc => some (acc.setBalance (acc.getBalance - asInt64 fee))
  | .expire id _ => c.mapAccount id fun _ => none
  | .reset id target => c.mapAccount id fun acc => some (acc.setBalance target)
  | .createAsset _ key asset => { c with assets := c.assets.insert key asset }
  | .writeAsset _ key asset => { c with assets := c.assets.insert key asset }
  | .dropAsset key => { c with assets := c.assets.erase key }
  | .generator al => { c with aliases := c.aliases.insert 0 al }
  | .createAlias id al =>
    { c.mapAccount al.owner fun acc => some { acc with aliasId := id } with aliases := c.aliases.insert id al }
  | .patchAlias _ id al => { c with aliases := c.aliases.insert id al }
  | .dropAlias holder id => { c.mapAccount holder (unlinked id) with aliases := c.aliases.erase id }

/-- What the code knows when it makes the write. -/
def Can (reg : Regime) (t : Touch) (c : Cells) : Prop :=
  match t with
  | .debit id total _ => ∃ acc, c.accounts.lookup id = some acc ∧ asInt64 total ≤ acc.getBalance
  | .settle id amount => ∃ acc, c.accounts.lookup id = some acc ∧ acc.getBalance = -(amount.toNat : Int) ∧
      acc.getBalance < 0
  | .credit source id _ => (source = .transfer ∨ source = .work) →
      ∃ acc, c.accounts.lookup id = some acc ∧ 0 ≤ acc.getBalance
  | .create source key _ _ =>
    (source = .sink ∨ source = .leg ∨ c.accounts.lookup (getHashPrefix key) = none) ∧
      (source = .transfer ∨ source = .work → c.accounts.size < reg.maxAcc)
  | .vmDebit id amount => amount ≠ 0 ∧ ∃ acc, c.accounts.lookup id = some acc ∧ asInt64 amount ≤ acc.getBalance
  | .vmCreate key _ => c.accounts.lookup (getHashPrefix key) = none
  | .age id => reg.daily = true ∧ ∃ acc, c.accounts.lookup id = some acc ∧ acc.getBalance < 0
  | .rent id fee =>
    reg.daily = true ∧ fee.toNat < 2 ^ 51 ∧ ∃ acc, c.accounts.lookup id = some acc ∧ asInt64 fee < acc.getBalance
  | .expire id fee => reg.daily = true ∧ ∃ acc, c.accounts.lookup id = some acc ∧
      ((acc.getBalance < 0 ∧ acc.nonce ≤ 1) ∨ (0 ≤ acc.getBalance ∧ acc.getBalance ≤ asInt64 fee))
  | .createAsset counted key _ => c.assets.lookup key = none ∧ (counted = true → c.assets.size < reg.maxAsset)
  | .writeAsset writer key asset => ∃ old, c.assets.lookup key = some old ∧ writer.May old asset
  | .dropAsset key => reg.daily = true ∧ ∃ old, c.assets.lookup key = some old ∧ assetDays old.balance ≤ 1
  | .createAlias id al =>
    id ≠ 0 ∧ (c.aliases.size + 2 < 2 ^ 32 → c.aliases.lookup id = none) ∧
      (∃ acc, c.accounts.lookup al.owner = some acc ∧
        ∀ old, acc.aliasId ≠ 0 → c.aliases.lookup acc.aliasId = some old → old.owner ≠ al.owner) ∧
      c.hookTargetOk al al.owner = true
  | .patchAlias principal id al =>
    id ≠ 0 ∧ c.hookTargetOk al principal = true ∧ ∃ old, c.aliases.lookup id = some old ∧
      al.owner = old.owner ∧
      (old.owner = principal ∨ (old.editor = principal ∧ al.editor = old.editor ∧ al.op = old.op))
  | .dropAlias holder id =>
    id ≠ 0 ∧ ∃ al, c.aliases.lookup id = some al ∧
      (al.owner = holder ∨ ∃ acc, c.accounts.lookup holder = some acc ∧ acc.aliasId = id)
  | _ => True

end Touch

/-! ### The methods of the account store -/

namespace Accounts

variable (a : Accounts) (id : HashPrefix)

theorem store_debitStamped (stamp : Account → Account) (total : UInt64) :
    (a.debitStamped id stamp total).store = a.store.alter id fun acc =>
      if int64 (acc.getBalance - asInt64 total) ≤ 0 then none
      else some (stamp
        { acc.setBalance (int64 (acc.getBalance - asInt64 total)) with nonce := acc.nonce + 1 }) := by
  unfold debitStamped
  cases hfind : a.find id with
  | none => rw [FMap.alter_of_none _ hfind]
  | some acc =>
    rw [FMap.alter_of_some _ hfind]
    dsimp only
    by_cases hgone : int64 (acc.getBalance - asInt64 total) ≤ 0
    · rw [if_pos hgone, if_pos hgone]
      rfl
    · rw [if_neg hgone, if_neg hgone]
      rfl

theorem store_debit (total : UInt64) : (a.debit id total).store = a.store.alter id (Touch.debited total none) :=
  a.store_debitStamped id _ total

theorem store_debitTransfer (total : UInt64) (r : Receipt) :
    (a.debitTransfer id total r.dest r.amount r.time).store =
      a.store.alter id (Touch.debited total (some r)) :=
  a.store_debitStamped id _ total

theorem store_chargeError (errFee : Int) :
    (a.chargeError id errFee).store = a.store.alter id (Touch.fined errFee) := by
  unfold chargeError
  cases hfind : a.find id with
  | none => rw [FMap.alter_of_none _ hfind]
  | some acc =>
    rw [FMap.alter_of_some _ hfind]
    unfold Touch.fined
    dsimp only
    split_ifs
    · exact (FMap.insert_of_lookup hfind).symm
    · rfl
    · rfl

theorem store_credit (amount : UInt64) :
    (a.credit id amount).store = a.store.alter id fun acc => some (Touch.credited amount acc) := by
  cases hfind : a.find id with
  | none => rw [FMap.alter_of_none _ hfind, credit_of_none hfind]
  | some acc =>
    rw [FMap.alter_of_some _ hfind, credit_eq hfind]
    rfl

theorem store_settlePayment (amount : UInt64) :
    (a.settlePayment id amount).store = a.store.alter id fun acc => some (Touch.settled amount acc) := by
  unfold settlePayment
  cases hfind : a.find id with
  | none => rw [FMap.alter_of_none _ hfind]
  | some acc =>
    rw [FMap.alter_of_some _ hfind]
    rfl

end Accounts

/-! ### Patches of an alias -/

namespace Alias

variable (al : Alias)

theorem bytes_image :
    al.image.bytes = al.owner.bytes ++ al.editor.bytes ++ leBytes 2 al.op.toNat ++ al.content.bytes := by
  refine ByteArr.ofList_bytes ?_
  simp only [List.length_append, al.owner.size_eq, al.editor.size_eq, al.content.size_eq, leBytes_length]

theorem owner_image : al.image.slice 0 8 = al.owner := by
  apply ByteArr.ext
  rw [ByteArr.bytes_slice _ (by omega), al.bytes_image, List.drop_zero, List.append_assoc, List.append_assoc]
  exact List.take_left' al.owner.size_eq

theorem editor_image : al.image.slice aliasOffEditor 8 = al.editor := by
  have hlen : al.owner.bytes.length = aliasOffEditor := al.owner.size_eq
  apply ByteArr.ext
  rw [ByteArr.bytes_slice _ (by decide), al.bytes_image, List.append_assoc, List.append_assoc,
    List.drop_left' hlen]
  exact List.take_left' al.editor.size_eq

theorem op_image : UInt16.ofNat (leNat (al.image.slice aliasOffOp 2).bytes) = al.op := by
  have hbytes : (al.image.slice aliasOffOp 2).bytes = leBytes 2 al.op.toNat := by
    have hlen : (al.owner.bytes ++ al.editor.bytes).length = aliasOffOp := by
      rw [List.length_append, al.owner.size_eq, al.editor.size_eq]
      rfl
    rw [ByteArr.bytes_slice _ (by decide), al.bytes_image, List.append_assoc, List.drop_left' hlen]
    exact List.take_left' (leBytes_length 2 _)
  have hop : al.op.toNat < 256 ^ 2 := al.op.toNat_lt
  rw [hbytes, leNat_leBytes, Nat.mod_eq_of_lt hop, UInt16.ofNat_toNat]

variable {al} {offset : Nat} {src : Bytes}

/-- Nobody writes the owner. -/
theorem owner_patch (hoff : aliasPatchMinOwner ≤ offset) (hfits : offset + src.length ≤ aliasValueBytes) :
    (ofImage (al.image.patch offset src)).owner = al.owner :=
  (ByteArr.slice_patch_of_le _ hoff hfits).trans al.owner_image

theorem editor_patch (hoff : aliasPatchMinEditor ≤ offset) (hfits : offset + src.length ≤ aliasValueBytes) :
    (ofImage (al.image.patch offset src)).editor = al.editor := by
  have hbefore : aliasOffEditor + 8 ≤ offset := le_trans (by decide) hoff
  exact (ByteArr.slice_patch_of_le _ hbefore hfits).trans al.editor_image

theorem op_patch (hoff : aliasPatchMinEditor ≤ offset) (hfits : offset + src.length ≤ aliasValueBytes) :
    (ofImage (al.image.patch offset src)).op = al.op := by
  have hslice : (al.image.patch offset src).slice aliasOffOp 2 = al.image.slice aliasOffOp 2 :=
    ByteArr.slice_patch_of_le _ hoff hfits
  unfold ofImage
  dsimp only
  rw [hslice]
  exact al.op_image

end Alias

/-- The touches `ts` lead from `c` to `c'`. -/
abbrev Touched (reg : Regime) : Cells → List Touch → Cells → Prop := Runs Touch.act (Touch.Can reg)

/-- The rules of any day and hour. -/
def Regime.anyDay (reg : Regime) : Regime := { reg with daily := true }

theorem Touched.anyDay {reg : Regime} {c c' : Cells} {ts : List Touch} (h : Touched reg c ts c') :
    Touched reg.anyDay c ts c' := by
  refine Runs.mono (fun t c hcan => ?_) h
  cases t with
  | age | rent | expire | dropAsset => exact ⟨rfl, hcan.2⟩
  | _ => exact hcan

/-- Every touch satisfies `ok` when it is made. -/
abbrev TouchesMeet (ok : Touch → Cells → Prop) : Cells → List Touch → Prop := Meets Touch.act ok

end Ces
