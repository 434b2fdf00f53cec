import Ces.Lib.Bytes
import Ces.Lib.FiniteMap
import Ces.Lib.Word

/-!
# Ledger data

The stored records: accounts, assets, aliases, and the result codes of the operations on them.
Balances live in 48 bits. `Int48.ofInt` writes the low six bytes, so a value outside
`[balanceMin, balanceMax]` is wrapped, not rejected (the range assertion of the source is compiled out
of release builds).
-/

namespace Ces

open Ces.Lib

/-- First eight bytes of a key: the ledger's map key. -/
abbrev HashPrefix := ByteArr 8
abbrev HashTail := ByteArr 24
abbrev Hash := ByteArr 32

def getHashPrefix (h : Hash) : HashPrefix := h.slice 0 8

def getHashTail (h : Hash) : HashTail := h.slice 8 24

def getHash (p : HashPrefix) (t : HashTail) : Hash := ByteArr.ofList 32 (p.bytes ++ t.bytes)

/-! ### Balances -/

def balanceMax : Int := 2 ^ 47 - 1
def balanceMin : Int := -2 ^ 47

/-- A 48-bit signed field. -/
structure Int48 where
  get : Int
  lower : balanceMin ≤ get
  upper : get ≤ balanceMax
  deriving DecidableEq

/-- The value kept of `v` in six bytes, sign-extended when read back. -/
def wrap48 (v : Int) : Int := signed (2 ^ 47) v

theorem wrap48_of_range {v : Int} (hlow : balanceMin ≤ v) (hhigh : v ≤ balanceMax) : wrap48 v = v :=
  signed_of_range hlow (by unfold balanceMax at hhigh; omega)

theorem wrap48_lower (v : Int) : balanceMin ≤ wrap48 v := signed_lower (by norm_num) v

theorem wrap48_upper (v : Int) : wrap48 v ≤ balanceMax := by
  have := signed_upper (m := 2 ^ 47) (by norm_num) v
  unfold wrap48 balanceMax
  omega

/-- Only the low 48 bits of a 64-bit result are stored. -/
theorem wrap48_int64 (v : Int) : wrap48 (int64 v) = wrap48 v :=
  signed_signed (by norm_num) v

def Int48.ofInt (v : Int) : Int48 := ⟨wrap48 v, wrap48_lower v, wrap48_upper v⟩

@[ext] theorem Int48.ext {a b : Int48} (h : a.get = b.get) : a = b := by
  cases a
  cases b
  congr

/-- Crediting `amount` onto a non-negative balance would exceed the cap. -/
def creditWouldOverflow (balance : Int) (amount : UInt64) : Bool :=
  decide (0 ≤ balance) && decide (balanceMax - balance < amount.toNat)

/-- `saturatingAddBalance`: the sum, clamped at the cap for a non-negative balance. -/
def saturatingAddBalance (cur : Int) (amount : UInt64) : Int :=
  if 0 ≤ cur ∧ balanceMax - cur < amount.toNat then balanceMax else int64 (cur + asInt64 amount)

/-! ### Result codes -/

inductive Rc where
  | ok
  | originNotFound
  | wrongNonce
  | insufficientBalance
  | insufficientBalanceWithCreate
  | invalidTargetAccount
  | wrongTargetAccount
  | wrongPaymentAmount
  | assetExists
  | assetNotFound
  | notOwner
  | notForSale
  | insufficientPayment
  | timeout
  | internal
  | targetNotFound
  | unknownPeer
  | queueFull
  | vmFailed
  | disabled
  | allowanceExceeded
  | protoRejected
  | fileNotFound
  | fileExists
  | badName
  | pathConflict
  | storeFull
  | computeDisabled
  | computeNoFileHandler
  | computeFundTooLow
  | computeInstanceNotFound
  | computeMaxInstances
  | notListening
  | immutable
  | badInput
  | balanceOverflow
  | aliasNotFound
  | hookRejected
  | hookTarget
  | unsupported
  | keynameTaken
  | keynameNotFound
  deriving DecidableEq, Repr

/-! ### Accounts -/

/-- A stored account. A negative balance marks a pending payment of that size. -/
structure Account where
  keyTail : HashTail
  balance : Int48
  lastXferAmount : UInt64
  lastXferDest : HashPrefix
  lastXferTime : UInt32
  nonce : UInt32
  aliasId : UInt32
  deriving DecidableEq

namespace Account

/-- The constructor from a full key. -/
def ofKey (key : Hash) (balance : Int) (nonce : UInt32) : Account where
  keyTail := getHashTail key
  balance := Int48.ofInt balance
  lastXferAmount := 0
  lastXferDest := ByteArr.zero 8
  lastXferTime := 0
  nonce := nonce
  aliasId := 0

def getBalance (a : Account) : Int := a.balance.get

def setBalance (a : Account) (v : Int) : Account := { a with balance := Int48.ofInt v }

def getKey (a : Account) (mapKey : HashPrefix) : Hash := getHash mapKey a.keyTail

theorem getBalance_lower (a : Account) : balanceMin ≤ a.getBalance := a.balance.lower

theorem getBalance_upper (a : Account) : a.getBalance ≤ balanceMax := a.balance.upper

@[simp] theorem getBalance_setBalance (a : Account) (v : Int) :
    (a.setBalance v).getBalance = wrap48 v := rfl

@[simp] theorem setBalance_getBalance (a : Account) : a.setBalance a.getBalance = a := by
  have hsame : Int48.ofInt a.getBalance = a.balance :=
    Int48.ext (wrap48_of_range a.getBalance_lower a.getBalance_upper)
  unfold setBalance
  rw [hsame]

@[simp] theorem getBalance_ofKey (key : Hash) (v : Int) (nonce : UInt32) :
    (ofKey key v nonce).getBalance = wrap48 v := rfl

@[simp] theorem getBalance_setNonce (a : Account) (n : UInt32) :
    ({ a with nonce := n } : Account).getBalance = a.getBalance := rfl

end Account

/-! ### Assets -/

abbrev AssetData := ByteArr 210

/-- A rented cell: `balance` packs the prepaid days and four flag bits. -/
structure Asset where
  ownerId : HashPrefix
  content : AssetData
  balance : UInt16
  price : UInt32
  deriving DecidableEq

def isAssetPrivate (b : UInt16) : Bool := b &&& 0x8000 != 0
def isAssetOwned (b : UInt16) : Bool := b &&& 0x4000 != 0
def isAssetImmutable (b : UInt16) : Bool := b &&& 0x2000 != 0
def isAssetOwnerPays (b : UInt16) : Bool := b &&& 0x1000 != 0
def assetDays (b : UInt16) : UInt16 := b &&& 0x0FFF

def assetBalance (days : UInt16) (priv assetOwned immutable ownerPays : Bool) : UInt16 :=
  (if priv then 0x8000 else 0) ||| (if assetOwned then 0x4000 else 0) |||
    (if immutable then 0x2000 else 0) ||| (if ownerPays then 0x1000 else 0) ||| (days &&& 0x0FFF)

def priceUnit : UInt64 := 100000000

def storedToRealPrice (stored : UInt32) : UInt64 := stored.toUInt64 * priceUnit

/-! ### Aliases -/

/-- Bytes of an alias value: owner, editor, op, content. -/
def aliasValueBytes : Nat := 1020
def aliasContentBytes : Nat := 1002

def aliasOffEditor : Nat := 8
def aliasOffOp : Nat := 16
def aliasOffContent : Nat := 18

def aliasPatchMinOwner : Nat := aliasOffEditor
def aliasPatchMinEditor : Nat := aliasOffContent

/-- The inline code area ends where the eight bytes of the refill ceiling start. -/
def aliasInlineCodeBytes : Nat := aliasContentBytes - 8

abbrev AliasData := ByteArr 1002

/-- The sidecar cell of an account. -/
structure Alias where
  owner : HashPrefix
  editor : HashPrefix
  op : UInt16
  content : AliasData
  deriving DecidableEq

def aliasOpHookGate : UInt16 := 0x0010
def aliasOpHookWatch : UInt16 := 0x0011
def aliasOpInlineHookGate : UInt16 := 0x0012
def aliasOpInlineHookWatch : UInt16 := 0x0013
def aliasOpInlineProgram : UInt16 := 0x0014
def aliasOpSystem : UInt16 := 0xFFFF

def aliasOpIsHook (op : UInt16) : Bool := op == aliasOpHookGate || op == aliasOpHookWatch

def aliasOpIsInline (op : UInt16) : Bool :=
  op == aliasOpInlineHookGate || op == aliasOpInlineHookWatch || op == aliasOpInlineProgram

def aliasOpIsGate (op : UInt16) : Bool := op == aliasOpHookGate || op == aliasOpInlineHookGate

def aliasOpIsWatch (op : UInt16) : Bool := op == aliasOpHookWatch || op == aliasOpInlineHookWatch

namespace Alias

/-- The raw value image `owner | editor | op | content`, `op` in native (little-endian) order. -/
def image (a : Alias) : ByteArr 1020 :=
  ByteArr.ofList 1020 (a.owner.bytes ++ a.editor.bytes ++ leBytes 2 a.op.toNat ++ a.content.bytes)

/-- The alias whose image is given. -/
def ofImage (i : ByteArr 1020) : Alias where
  owner := i.slice 0 8
  editor := i.slice aliasOffEditor 8
  op := UInt16.ofNat (leNat (i.slice aliasOffOp 2).bytes)
  content := i.slice aliasOffContent 1002

end Alias

end Ces
