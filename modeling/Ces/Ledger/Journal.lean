import Mathlib.Data.Nat.Bitwise
import Ces.Lib.Buffer
import Ces.Types

/-!
# The journal records of the stores

The `logkv::serializer`s of `account.h`, `asset.h`, `alias.h` and `keyname.h`. `get_size`, `write` and `read` are
three case analyses of their own. They agree (`RoundTrips`): an update record changes the fields of its mode and no
others, a snapshot or a full record is the value. A value that counts as erased is journalled as an erasure and
comes back as the default one, whatever its other fields hold.

A buffer that is too short is reported up to the end of the first field that it lacks, not to the end of the record.
The reader of `KeyName` alone reports zero.
-/

namespace Ces

open Ces.Lib

namespace Journal

/-- The byte order of logkv's `Writer` and `Reader`. -/
structure ByteOrder where
  u16 : FixedCodec UInt16
  u32 : FixedCodec UInt32
  u16_width : u16.width = 2
  u32_width : u32.width = 4

/-- The four functions of a serializer. `fields` is what `write` writes and `scan` what `read` reads, the first
argument being the snapshot flag; `caught` is what `read` returns for a buffer that is too short, from the bytes
processed and required. -/
structure Serializer (α Mode : Type) where
  isEmpty : α → Bool
  getSize : Bool → Mode → α → Nat
  fields : Bool → Mode → α → List Bytes
  scan : Bool → α → Scan α
  caught : Nat → Nat := id

namespace Serializer

variable {α Mode : Type} (s : Serializer α Mode)

/-- `write`: what stands in the buffer, and the result. -/
def write (snapshot : Bool) (mode : Mode) (size : Nat) (obj : α) : Bytes × Nat :=
  writeFields (s.fields snapshot mode obj) size

/-- `read`: the result and the object after it; `none` is the exception for a header that is no mode. -/
def read (snapshot : Bool) (src : Bytes) (obj : α) : Option (Nat × α) :=
  match s.scan snapshot obj ⟨0, src⟩ with
  | .ok (obj', c) => some (c.taken, obj')
  | .error (.short total) => some (s.caught total, obj)
  | .error .refused => none

/-- The object that the record of `v` makes of `old`; `update` is what the record of a mode does. -/
def after (erased : α) (update : Mode → α → α → α) (snapshot : Bool) (mode : Mode) (v old : α) : α :=
  if snapshot then v else if s.isEmpty v then erased else update mode v old

/-- The three functions agree on the values of `Within`. -/
structure RoundTrips (Within : α → Prop) (erased : α) (update : Mode → α → α → α) : Prop where
  writes : ∀ snapshot mode v size, s.getSize snapshot mode v ≤ size →
    (s.write snapshot mode size v).2 = s.getSize snapshot mode v ∧
    (s.write snapshot mode size v).1.length = s.getSize snapshot mode v
  reads : ∀ snapshot mode v size, Within v → s.getSize snapshot mode v ≤ size → ∀ rest old,
    s.read snapshot ((s.write snapshot mode size v).1 ++ rest) old =
      some (s.getSize snapshot mode v, s.after erased update snapshot mode v old)
  cutWrite : ∀ snapshot mode v size, size < s.getSize snapshot mode v →
    (s.write snapshot mode size v).2 = fieldEnd (s.fields snapshot mode v) size ∧
    (s.write snapshot mode size v).1.length ≤ size ∧
    size < fieldEnd (s.fields snapshot mode v) size ∧
    fieldEnd (s.fields snapshot mode v) size ≤ s.getSize snapshot mode v

/-- Whatever is missing at the end of a record, the reader leaves the object alone. What it returns is `report` of
the end of the first missing field. -/
def CutReads (Within : α → Prop) (report : Nat → Nat) : Prop :=
  ∀ snapshot mode v size, Within v → s.getSize snapshot mode v ≤ size → ∀ n < s.getSize snapshot mode v, ∀ old,
    s.read snapshot ((s.write snapshot mode size v).1.take n) old =
      some (report (fieldEnd (s.fields snapshot mode v) n), old)

/-- What is to be shown of a serializer: its sizes, and that its reader follows its writer. -/
structure Agrees (Within : α → Prop) (erased : α) (update : Mode → α → α → α) : Prop where
  size : ∀ snapshot mode v, s.getSize snapshot mode v = (s.fields snapshot mode v).flatten.length
  scans : ∀ snapshot mode v old, Within v →
    Scan.Reads (s.scan snapshot old) (s.fields snapshot mode v) (s.after erased update snapshot mode v old)

variable {s} {Within : α → Prop} {erased : α} {update : Mode → α → α → α}

theorem Agrees.write_eq (h : s.Agrees Within erased update) {snapshot : Bool} {mode : Mode} {v : α} {size : Nat}
    (hsize : s.getSize snapshot mode v ≤ size) :
    s.write snapshot mode size v = ((s.fields snapshot mode v).flatten, (s.fields snapshot mode v).flatten.length) := by
  rw [h.size] at hsize
  exact writeFields_of_le hsize

theorem Agrees.roundTrips (h : s.Agrees Within erased update) : s.RoundTrips Within erased update where
  writes snapshot mode v size hsize := by
    rw [h.write_eq hsize, h.size]
    exact ⟨rfl, rfl⟩
  reads snapshot mode v size hv hsize rest old := by
    rw [h.write_eq hsize, read, (h.scans snapshot mode v old hv).whole, h.size]
    simp
  cutWrite snapshot mode v size hsize := by
    rw [h.size] at hsize ⊢
    obtain ⟨-, hlen, hcount⟩ := writeFields_of_lt hsize
    exact ⟨hcount, hlen, fieldEnd_bounds hsize⟩

theorem Agrees.read_cut (h : s.Agrees Within erased update) {snapshot : Bool} {mode : Mode} {v : α} {size n : Nat}
    (hv : Within v) (hsize : s.getSize snapshot mode v ≤ size) (hn : n < s.getSize snapshot mode v) (old : α) :
    s.read snapshot ((s.write snapshot mode size v).1.take n) old =
      some (s.caught (fieldEnd (s.fields snapshot mode v) n), old) := by
  have hcut := (h.scans snapshot mode v old hv).cut 0 n (by rw [← h.size]; exact hn)
  rw [h.write_eq hsize, read, hcut, Nat.zero_add]

end Serializer

/-- The header byte of a record. -/
def header {Mode : Type} (byte : Mode → UInt8) (mode : Mode) : Bytes := FixedCodec.be8.put (byte mode)

@[simp] theorem length_header {Mode : Type} (byte : Mode → UInt8) (mode : Mode) : (header byte mode).length = 1 :=
  FixedCodec.be8.put_length _

section record

variable {α Mode : Type} {snapshot empty : Bool} {all fs : List Bytes} {byte : Mode → UInt8} {none mode : Mode}

/-- A record is a snapshot, an erasure, or a header with the fields of its mode. -/
theorem size_record {szAll n : Nat} (hall : szAll = (all.map List.length).sum)
    (hmode : n = 1 + (fs.map List.length).sum) :
    (if snapshot then szAll else if empty then 1 else n) =
      (if snapshot then all else if empty then [header byte none] else header byte mode :: fs).flatten.length := by
  cases snapshot
  · cases empty
    · simp [hmode]
    · simp
  · simp [hall]

theorem reads_record {p : Scan α} {q : UInt8 → Scan α} {v erased updated : α} (hall : Scan.Reads p all v)
    (herased : Scan.Reads (q (byte none)) [] erased) (hmode : Scan.Reads (q (byte mode)) fs updated) :
    Scan.Reads (if snapshot then p else Scan.field FixedCodec.be8 >>= q)
      (if snapshot then all else if empty then [header byte none] else header byte mode :: fs)
      (if snapshot then v else if empty then erased else updated) := by
  cases snapshot
  · cases empty
    · exact .cons hmode
    · exact .cons herased
  · exact hall

end record

end Journal

open Journal Scan

variable (o : ByteOrder)

/-! ### Words of 48 bits -/

/-- Low 32 bits, then high 16 bits. -/
def write48 (v : UInt64) : List Bytes := [o.u32.put v.toUInt32, o.u16.put (v >>> 32).toUInt16]

def read48 : Scan UInt64 := do
  let lo ← field o.u32
  let hi ← field o.u16
  return lo.toUInt64 ||| hi.toUInt64 <<< 32

theorem halves48 (v : UInt64) : v.toUInt32.toUInt64 ||| (v >>> 32).toUInt16.toUInt64 <<< 32 = v % 0x1000000000000 := by
  apply UInt64.toNat_inj.mp
  have hlow : v.toNat % 2 ^ 32 < 2 ^ 32 := Nat.mod_lt _ (by norm_num)
  have hjoin := Nat.shiftLeft_add_eq_or_of_lt hlow (v.toNat / 2 ^ 32 % 2 ^ 16)
  have hfits : v.toNat / 2 ^ 32 % 2 ^ 16 * 2 ^ 32 < 2 ^ 64 := by omega
  have hshift : UInt64.toNat 32 % 64 = 32 := rfl
  have hmod : UInt64.toNat 0x1000000000000 = 2 ^ 48 := by decide
  simp only [UInt64.toNat_or, UInt32.toNat_toUInt64, UInt64.toNat_toUInt32, UInt64.toNat_shiftLeft,
    UInt16.toNat_toUInt64,
    UInt64.toNat_toUInt16, UInt64.toNat_shiftRight, Nat.shiftRight_eq_div_pow, Nat.shiftLeft_eq, UInt64.toNat_mod,
      hshift, hmod]
    at hjoin ⊢
  rw [Nat.mod_eq_of_lt hfits, Nat.or_comm, ← hjoin]
  omega

theorem read48_reads (v : UInt64) : Reads (read48 o) (write48 o v) (v % 0x1000000000000) := by
  rw [← halves48 v]
  exact .cons (.cons (.pure _))

/-- `static_cast<int64_t>(v << 16) >> 16` -/
def signExtend48 (v : UInt64) : Int := asInt64 (v <<< 16) >>> (16 : Nat)

/-- A balance comes back from its low six bytes. -/
theorem signExtend48_low (b : Int48) : signExtend48 (asUInt64 b.get % 0x1000000000000) = b.get := by
  have hlow := b.lower
  have hhigh := b.upper
  have hcast := asUInt64_toNat b.get
  have hmod : UInt64.toNat 0x1000000000000 = 2 ^ 48 := by decide
  have hshift : UInt64.toNat 16 % 64 = 16 := rfl
  unfold balanceMin at hlow
  unfold balanceMax at hhigh
  have hword : ((asUInt64 b.get % 0x1000000000000) <<< 16).toNat = (asUInt64 b.get).toNat % 2 ^ 48 * 2 ^ 16 := by
    rw [UInt64.toNat_shiftLeft, UInt64.toNat_mod, hmod, hshift, Nat.shiftLeft_eq, Nat.mod_eq_of_lt (by omega)]
  rw [signExtend48, Int.shiftRight_eq_div_pow]
  rcases asInt64_cases ((asUInt64 b.get % 0x1000000000000) <<< 16) with ⟨hsign, heq⟩ | ⟨hsign, heq⟩
  · rw [heq, hword]
    rw [hword] at hsign
    omega
  · rw [heq, hword]
    rw [hword] at hsign
    omega

def readBalance : Scan Int := do
  let v ← read48 o
  return signExtend48 v

theorem readBalance_reads (b : Int48) : Reads (readBalance o) (write48 o (asUInt64 b.get)) b.get := by
  have hdone := (read48_reads o (asUInt64 b.get)).bind (q := fun v => pure (signExtend48 v)) (.pure _)
  rwa [signExtend48_low, List.append_nil] at hdone

/-! ### Accounts -/

namespace Account

inductive SerMode where
  | full
  | balanceNonce
  | none
  | transfer
  deriving DecidableEq

def SerMode.byte : SerMode → UInt8
  | full => 0x00
  | balanceNonce => 0x01
  | none => 0x02
  | transfer => 0x03

/-- The default constructor. -/
def zero : Account := ⟨ByteArr.zero 24, Int48.ofInt 0, 0, ByteArr.zero 8, 0, 0, 0⟩

def isEmpty (a : Account) : Bool := a.keyTail == ByteArr.zero 24 && a.getBalance == 0 && a.nonce == 0

def szBalanceNonce : Nat := 6 + 4
def szXfer : Nat := 8 + 6 + 4
def szAll : Nat := 24 + szBalanceNonce + szXfer + 4

def getSize (snapshot : Bool) (mode : SerMode) (a : Account) : Nat :=
  if snapshot then szAll
  else if a.isEmpty then 1
  else match mode with
    | .full => 1 + szAll
    | .balanceNonce => 1 + szBalanceNonce
    | .transfer => 1 + szBalanceNonce + szXfer
    | .none => 1

def balanceNonceFields (a : Account) : List Bytes := write48 o (asUInt64 a.getBalance) ++ [o.u32.put a.nonce]

def xferFields (a : Account) : List Bytes :=
  (FixedCodec.raw 8).put a.lastXferDest :: write48 o a.lastXferAmount ++ [o.u32.put a.lastXferTime]

def allFields (a : Account) : List Bytes :=
  (FixedCodec.raw 24).put a.keyTail :: (balanceNonceFields o a ++ (xferFields o a ++ [o.u32.put a.aliasId]))

def fields (snapshot : Bool) (mode : SerMode) (a : Account) : List Bytes :=
  if snapshot then allFields o a
  else if a.isEmpty then [header SerMode.byte .none]
  else header SerMode.byte mode :: match mode with
    | .full => allFields o a
    | .balanceNonce => balanceNonceFields o a
    | .transfer => balanceNonceFields o a ++ xferFields o a
    | .none => []

def readBalanceNonce (a : Account) : Scan Account := do
  let bal ← readBalance o
  let nonce ← field o.u32
  return { a.setBalance bal with nonce := nonce }

def readXfer (a : Account) : Scan Account := do
  let xferDest ← field (FixedCodec.raw 8)
  let xferAmount ← read48 o
  let xferTime ← field o.u32
  return { a with lastXferDest := xferDest, lastXferAmount := xferAmount, lastXferTime := xferTime }

def readAll (a : Account) : Scan Account := do
  let kt ← field (FixedCodec.raw 24)
  let a ← readBalanceNonce o { a with keyTail := kt }
  let a ← readXfer o a
  let aliasId ← field o.u32
  return { a with aliasId := aliasId }

def scan (snapshot : Bool) (a : Account) : Scan Account :=
  if snapshot then readAll o a
  else do
    let header ← field FixedCodec.be8
    if header = SerMode.byte .none then return zero
    else if header = SerMode.byte .full then readAll o a
    else if header = SerMode.byte .balanceNonce then readBalanceNonce o a
    else if header = SerMode.byte .transfer then do
      let a ← readBalanceNonce o a
      readXfer o a
    else refuse

def serializer : Serializer Account SerMode where
  isEmpty := isEmpty
  getSize := getSize
  fields := fields o
  scan := scan o

/-- The range of `UInt48`; every other field has the range of its type. -/
def Within (a : Account) : Prop := a.lastXferAmount.toNat < 2 ^ 48

/-- What a record does to an account. -/
def update : SerMode → Account → Account → Account
  | .full, v, _ => v
  | .balanceNonce, v, old => { old with balance := v.balance, nonce := v.nonce }
  | .transfer, v, old => { old with
      balance := v.balance, nonce := v.nonce, lastXferDest := v.lastXferDest, lastXferAmount := v.lastXferAmount,
      lastXferTime := v.lastXferTime }
  | .none, _, _ => zero

variable (v old : Account)

@[simp] theorem length_balanceNonceFields : ((balanceNonceFields o v).map List.length).sum = szBalanceNonce := by
  simp [balanceNonceFields, write48, FixedCodec.put_length, o.u16_width, o.u32_width, szBalanceNonce]

@[simp] theorem length_xferFields : ((xferFields o v).map List.length).sum = szXfer := by
  simp [xferFields, write48, FixedCodec.put_length, o.u16_width, o.u32_width, szXfer]

@[simp] theorem length_allFields : ((allFields o v).map List.length).sum = szAll := by
  simp [allFields, FixedCodec.put_length, o.u32_width, szAll]
  omega

theorem readBalanceNonce_reads :
    Reads (readBalanceNonce o old) (balanceNonceFields o v) { old with balance := v.balance, nonce := v.nonce } := by
  have hsame : Int48.ofInt v.balance.get = v.balance := Int48.ext (wrap48_of_range v.balance.lower v.balance.upper)
  have h := (readBalance_reads o v.balance).bind (q := fun bal => do
    let nonce ← field o.u32
    return { old.setBalance bal with nonce := nonce }) (.cons (a := v.nonce) (.pure _))
  rwa [setBalance, hsame] at h

theorem readXfer_reads (h : v.Within) : Reads (readXfer o old) (xferFields o v)
    { old with
      lastXferDest := v.lastXferDest, lastXferAmount := v.lastXferAmount, lastXferTime := v.lastXferTime } := by
  have hsame : v.lastXferAmount % 0x1000000000000 = v.lastXferAmount := by
    have hmod : UInt64.toNat 0x1000000000000 = 2 ^ 48 := by decide
    apply UInt64.toNat_inj.mp
    rw [UInt64.toNat_mod, hmod, Nat.mod_eq_of_lt h]
  have hamount := read48_reads o v.lastXferAmount
  rw [hsame] at hamount
  exact .cons (hamount.bind (.cons (.pure _)))

theorem readAll_reads (h : v.Within) : Reads (readAll o old) (allFields o v) v := by
  exact .cons ((readBalanceNonce_reads o v _).bind ((readXfer_reads o v _ h).bind (.cons (.pure _))))

theorem agrees : (serializer o).Agrees Within zero update where
  size snapshot mode v := by
    refine size_record (length_allFields o v).symm ?_
    cases mode <;> simp
    omega
  scans snapshot mode v old h := by
    refine reads_record (readAll_reads o v old h) (.pure _) ?_
    cases mode with
    | full => exact readAll_reads o v old h
    | balanceNonce => exact readBalanceNonce_reads o v old
    | none => exact .pure _
    | transfer => exact (readBalanceNonce_reads o v old).bind (readXfer_reads o v _ h)

end Account

/-! ### Assets -/

namespace Asset

inductive SerMode where
  | full
  | content
  | metadata
  | balance
  | none
  deriving DecidableEq

def SerMode.byte : SerMode → UInt8
  | full => 0x00
  | content => 0x01
  | metadata => 0x02
  | balance => 0x03
  | none => 0x04

/-- The default constructor. -/
def zero : Asset := ⟨ByteArr.zero 8, ByteArr.zero 210, 0, 0⟩

def isEmpty (a : Asset) : Bool := assetDays a.balance == 0 && a.price == 0 && a.ownerId == ByteArr.zero 8

def szMeta : Nat := 8 + 4
def szAll : Nat := 8 + 210 + 2 + 4

def getSize (snapshot : Bool) (mode : SerMode) (a : Asset) : Nat :=
  if snapshot then szAll
  else if a.isEmpty then 1
  else match mode with
    | .full => 1 + szAll
    | .content => 1 + 210
    | .metadata => 1 + szMeta
    | .balance => 1 + 2
    | .none => 1

def allFields (a : Asset) : List Bytes :=
  [(FixedCodec.raw 8).put a.ownerId, o.u16.put a.balance, o.u32.put a.price, (FixedCodec.raw 210).put a.content]

def fields (snapshot : Bool) (mode : SerMode) (a : Asset) : List Bytes :=
  if snapshot then allFields o a
  else if a.isEmpty then [header SerMode.byte .none]
  else header SerMode.byte mode :: match mode with
    | .full => allFields o a
    | .content => [(FixedCodec.raw 210).put a.content]
    | .metadata => [(FixedCodec.raw 8).put a.ownerId, o.u32.put a.price]
    | .balance => [o.u16.put a.balance]
    | .none => []

def readAll : Scan Asset := do
  let owner ← field (FixedCodec.raw 8)
  let balance ← field o.u16
  let price ← field o.u32
  let content ← field (FixedCodec.raw 210)
  return ⟨owner, content, balance, price⟩

def scan (snapshot : Bool) (a : Asset) : Scan Asset :=
  if snapshot then readAll o
  else do
    let header ← field FixedCodec.be8
    if header = SerMode.byte .none then return zero
    else if header = SerMode.byte .full then readAll o
    else if header = SerMode.byte .content then do
      let content ← field (FixedCodec.raw 210)
      return { a with content := content }
    else if header = SerMode.byte .metadata then do
      let owner ← field (FixedCodec.raw 8)
      let price ← field o.u32
      return { a with ownerId := owner, price := price }
    else if header = SerMode.byte .balance then do
      let balance ← field o.u16
      return { a with balance := balance }
    else refuse

def serializer : Serializer Asset SerMode where
  isEmpty := isEmpty
  getSize := getSize
  fields := fields o
  scan := scan o

/-- What a record does to an asset. -/
def update : SerMode → Asset → Asset → Asset
  | .full, v, _ => v
  | .content, v, old => { old with content := v.content }
  | .metadata, v, old => { old with ownerId := v.ownerId, price := v.price }
  | .balance, v, old => { old with balance := v.balance }
  | .none, _, _ => zero

theorem readAll_reads (v : Asset) : Reads (readAll o) (allFields o v) v := .cons (.cons (.cons (.cons (.pure _))))

@[simp] theorem length_allFields (v : Asset) : ((allFields o v).map List.length).sum = szAll := by
  simp [allFields, FixedCodec.put_length, o.u16_width, o.u32_width, szAll]

theorem agrees : (serializer o).Agrees (fun _ => True) zero update where
  size snapshot mode v := by
    refine size_record (length_allFields o v).symm ?_
    cases mode <;> simp [FixedCodec.put_length, o.u16_width, o.u32_width, szMeta]
  scans snapshot mode v old _ := by
    refine reads_record (readAll_reads o v) (.pure _) ?_
    cases mode with
    | full => exact readAll_reads o v
    | content => exact .cons (.pure _)
    | metadata => exact .cons (.cons (.pure _))
    | balance => exact .cons (.pure _)
    | none => exact .pure _

end Asset

/-! ### Aliases -/

namespace Alias

inductive SerMode where
  | full
  | none
  deriving DecidableEq

def SerMode.byte : SerMode → UInt8
  | full => 0x00
  | none => 0x01

/-- The default constructor. -/
def zero : Alias := ⟨ByteArr.zero 8, ByteArr.zero 8, 0, ByteArr.zero 1002⟩

def isEmpty (a : Alias) : Bool := a.owner == ByteArr.zero 8 && a.op == 0

def szAll : Nat := 8 + 8 + 2 + 1002

/-- The mode plays no part. -/
def getSize (snapshot : Bool) (_ : SerMode) (a : Alias) : Nat :=
  if snapshot then szAll else if a.isEmpty then 1 else 1 + szAll

def allFields (a : Alias) : List Bytes :=
  [(FixedCodec.raw 8).put a.owner, (FixedCodec.raw 8).put a.editor, o.u16.put a.op, (FixedCodec.raw 1002).put a.content]

def fields (snapshot : Bool) (_ : SerMode) (a : Alias) : List Bytes :=
  if snapshot then allFields o a
  else if a.isEmpty then [header SerMode.byte .none]
  else header SerMode.byte .full :: allFields o a

def readAll : Scan Alias := do
  let owner ← field (FixedCodec.raw 8)
  let editor ← field (FixedCodec.raw 8)
  let op ← field o.u16
  let content ← field (FixedCodec.raw 1002)
  return ⟨owner, editor, op, content⟩

def scan (snapshot : Bool) (_ : Alias) : Scan Alias :=
  if snapshot then readAll o
  else do
    let header ← field FixedCodec.be8
    if header = SerMode.byte .none then return zero
    else if header = SerMode.byte .full then readAll o
    else refuse

def serializer : Serializer Alias SerMode where
  isEmpty := isEmpty
  getSize := getSize
  fields := fields o
  scan := scan o

theorem readAll_reads (v : Alias) : Reads (readAll o) (allFields o v) v := .cons (.cons (.cons (.cons (.pure _))))

theorem agrees : (serializer o).Agrees (fun _ => True) zero (fun _ v _ => v) where
  size snapshot mode v := by
    have hall : szAll = ((allFields o v).map List.length).sum := by
      simp [allFields, FixedCodec.put_length, o.u16_width, szAll]
    exact size_record hall (by rw [← hall])
  scans snapshot mode v old _ := reads_record (readAll_reads o v) (.pure _) (readAll_reads o v)

end Alias

/-! ### Names -/

structure KeyName where
  name : ByteArr 32
  deriving DecidableEq

namespace KeyName

inductive SerMode where
  | full
  | none
  deriving DecidableEq

def SerMode.byte : SerMode → UInt8
  | full => 0x00
  | none => 0x01

/-- The default constructor. -/
def zero : KeyName := ⟨ByteArr.zero 32⟩

def isEmpty (k : KeyName) : Bool := k.name == ByteArr.zero 32

/-- The mode plays no part. -/
def getSize (snapshot : Bool) (_ : SerMode) (k : KeyName) : Nat :=
  if snapshot then 32 else if k.isEmpty then 1 else 1 + 32

def fields (snapshot : Bool) (_ : SerMode) (k : KeyName) : List Bytes :=
  if snapshot then [(FixedCodec.raw 32).put k.name]
  else if k.isEmpty then [header SerMode.byte .none]
  else [header SerMode.byte .full, (FixedCodec.raw 32).put k.name]

def readAll : Scan KeyName := do
  let name ← field (FixedCodec.raw 32)
  return ⟨name⟩

/-- Any header but that of an erasure is taken for a name. -/
def scan (snapshot : Bool) (_ : KeyName) : Scan KeyName :=
  if snapshot then readAll
  else do
    let header ← field FixedCodec.be8
    if header = SerMode.byte .none then return zero
    else readAll

/-- Here `read` reports zero for a buffer that is too short. -/
def serializer : Serializer KeyName SerMode where
  isEmpty := isEmpty
  getSize := getSize
  fields := fields
  scan := scan
  caught _ := 0

theorem readAll_reads (v : KeyName) : Reads readAll [(FixedCodec.raw 32).put v.name] v := .cons (.pure _)

theorem agrees : serializer.Agrees (fun _ => True) zero (fun _ v _ => v) where
  size snapshot mode v := by
    have hall : 32 = ([(FixedCodec.raw 32).put v.name].map List.length).sum := by simp [FixedCodec.put_length]
    exact size_record hall (by rw [← hall])
  scans snapshot mode v old _ := reads_record (readAll_reads v) (.pure _) (readAll_reads v)

end KeyName

namespace Journal

theorem cutReads_of_agrees {α Mode : Type} {s : Serializer α Mode} {Within : α → Prop} {erased : α}
    {update : Mode → α → α → α} (h : s.Agrees Within erased update) : s.CutReads Within s.caught := by
  intro snapshot mode v size hv hsize n hn old
  exact h.read_cut hv hsize hn old

/-- Every record is written in `get_size` bytes and read back as it was meant. A buffer that is too short leaves the
object alone; the readers of accounts, assets and aliases report the end of the first field it lacks, the reader of
names reports zero. -/
theorem records_round_trip :
    ((Account.serializer o).RoundTrips Account.Within Account.zero Account.update ∧
      (Account.serializer o).CutReads Account.Within id) ∧
    ((Asset.serializer o).RoundTrips (fun _ => True) Asset.zero Asset.update ∧
      (Asset.serializer o).CutReads (fun _ => True) id) ∧
    ((Alias.serializer o).RoundTrips (fun _ => True) Alias.zero (fun _ v _ => v) ∧
      (Alias.serializer o).CutReads (fun _ => True) id) ∧
    KeyName.serializer.RoundTrips (fun _ => True) KeyName.zero (fun _ v _ => v) ∧
      KeyName.serializer.CutReads (fun _ => True) fun _ => 0 :=
  ⟨⟨(Account.agrees o).roundTrips, cutReads_of_agrees (Account.agrees o)⟩,
    ⟨(Asset.agrees o).roundTrips, cutReads_of_agrees (Asset.agrees o)⟩,
    ⟨(Alias.agrees o).roundTrips, cutReads_of_agrees (Alias.agrees o)⟩,
    KeyName.agrees.roundTrips, cutReads_of_agrees KeyName.agrees⟩

/-- The high byte first. -/
def networkOrder : ByteOrder := ⟨.be16, .be32, rfl, rfl⟩

/-- No key, no balance, no nonce, but the id of an alias. -/
def aliasOnly : Account := { Account.zero with aliasId := 7 }

/-- A full record of an account that counts as erased does not restore it; a buffer of one byte is told 25 where the
record has 57; and the reader of names reports zero. -/
theorem record_not_restored :
    ((Account.serializer networkOrder).read false ((Account.serializer networkOrder).write false .full 57 aliasOnly).1
        aliasOnly = some (1, Account.zero) ∧ aliasOnly ≠ Account.zero) ∧
    (((Account.serializer networkOrder).write false .full 1 { Account.zero with nonce := 1 }).2 = 25 ∧
      (Account.serializer networkOrder).getSize false .full { Account.zero with nonce := 1 } = 57) ∧
    KeyName.serializer.read false [0] KeyName.zero = some (0, KeyName.zero) := by
  decide

end Journal

end Ces
