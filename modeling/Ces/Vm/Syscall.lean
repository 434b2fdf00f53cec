import Ces.Ledger.Spend
import Ces.Lib.Simulation
import Ces.Vm.Machine

/-!
# Syscalls

`hostCall` dispatches on the syscall register: bill the gas, read the operands out of the cells, bill the
protocol fee, ask the host, write the reply back. A syscall that cannot pay, or whose operands do not lie in
the cells, ends there (`return` in the source); one that is refused reports the code in `S`. Every syscall
that gets to its end mirrors the allowance left (`finish`).
-/

namespace Ces

open Ces.Lib

/-- What the interpreter makes of one instruction or one run. -/
abbrev Vm (A : Type) := Program HostCall HostReply A

/-- The fees a host carries: discounted when the run starts and billed as they are. -/
structure VmFees where
  feeQuery : UInt64
  feeTx : UInt64
  feeAsset : UInt64
  feeAlias : UInt64
  feeSendClient : UInt64
  feeAssetRaw : UInt64
  assetRentMultBp : UInt16

/-- The fees of a run that starts now. -/
def CesServer.vmFees (s : CesServer) : VmFees where
  feeQuery := s.discountFee .query s.cfg.feeQuery
  feeTx := s.discountFee .tx s.cfg.feeTx
  feeAsset := s.discountFee .assetRent s.cfg.feeAsset
  feeAlias := s.discountFee .accountRent s.cfg.feeAlias
  feeSendClient := s.discountFee .tx (min (s.cfg.feeQuery * 10) s.cfg.feeTx)
  feeAssetRaw := s.cfg.feeAsset
  assetRentMultBp := s.feeMult .assetRent

/-- What the interpreter takes from libraries: the hash and the largest datagram. -/
structure VmLib where
  sha256 : Bytes → Hash
  maxDataSize : Nat

def sigSize : Nat := 65
def cesvmMaxAssetRange : Nat := 256
def cesvmAssetRangeRetries : Nat := 4
def usPerSec : UInt64 := 1000000
def maxL2Blob : UInt64 := 1024

inductive Syscall where
  | nop
  | readAccount
  | transfer
  | readAsset
  | createAssetRandom
  | updateAsset
  | fundAsset
  | buyAsset
  | giveAsset
  | sendUdp
  | hash
  | verifySig
  | crossTransfer
  | loadCode
  | createAsset
  | sendClient
  | schedule
  | createAssetManaged
  | rpc
  | ownerTransfer
  | deposit
  | withdraw
  | updateAssetMeta
  | refill
  | createAssetRange
  | readAlias
  | writeAlias
  | loadCodeAlias
  | scheduleAlias
  | l2call
  deriving DecidableEq

/-- The syscalls in the order of their numbers. -/
def Syscall.all : List Syscall :=
  [.nop, .readAccount, .transfer, .readAsset, .createAssetRandom, .updateAsset, .fundAsset, .buyAsset,
    .giveAsset, .sendUdp, .hash, .verifySig, .crossTransfer, .loadCode, .createAsset, .sendClient,
    .schedule, .createAssetManaged, .rpc, .ownerTransfer, .deposit, .withdraw, .updateAssetMeta, .refill,
    .createAssetRange, .readAlias, .writeAlias, .loadCodeAlias, .scheduleAlias, .l2call]

def Syscall.ofWord (w : UInt64) : Option Syscall := Syscall.all[w.toNat]?

/-- Result codes are numbered in the order of their constructors. -/
def Rc.code (rc : Rc) : UInt64 := UInt64.ofNat rc.ctorIdx

namespace HostReply

/-- The code of a reply. A host answers every call in its own form; `internal` stands for any other. -/
def toRc : HostReply → Rc
  | .rc code => code
  | _ => .internal

def toGas : HostReply → UInt64
  | .gas granted => granted
  | _ => 0

def toFlag : HostReply → Bool
  | .flag b => b
  | _ => false

def toBytes : HostReply → Option Bytes
  | .bytes data => data
  | _ => none

def toAsset : HostReply → Option Asset
  | .asset cell => cell
  | _ => none

end HostReply

/-- Write what the host knows of an account. -/
def Machine.putAccount (m : Machine) : HostReply → Machine
  | .account balance nonce aliasId =>
    ((m.setR (asUInt64 balance)).set 5 nonce.toUInt64).set 6 aliasId.toUInt64
  | _ => m

/-- Write an asset where the program wants it. The second pointer is read after the first write. -/
def Machine.putAsset (m : Machine) (asset : Asset) : Machine :=
  let m := m.writeIoBytes (m.io 5) asset.ownerId.bytes
  let m := m.writeIoBytes (m.io 6) asset.content.bytes
  (m.set 7 asset.balance.toUInt64).set 8 asset.price.toUInt64

namespace Machine

/-! ### Steps of a syscall -/

/-- `if (!bill(cost)) return;` -/
def billing (cost : UInt64) (k : Machine → Vm Machine) (m : Machine) : Vm Machine :=
  if (m.bill cost).1 then k (m.bill cost).2 else .done (m.bill cost).2

/-- `if (!billCredits(fee)) return;` -/
def paying (fee : UInt64) (k : Machine → Vm Machine) (m : Machine) : Vm Machine :=
  if (m.billCredits fee).1 then k (m.billCredits fee).2 else .done (m.billCredits fee).2

/-- `readIoBytes(...); if (term_) return;` -/
def reading (ioOffset : UInt64) (len : Nat) (k : Bytes → Machine → Vm Machine) (m : Machine) :
    Vm Machine :=
  match m.readIoBytes ioOffset len with
  | none => .done (m.fault .segfault)
  | some data => k data m

def readingHash (ioOffset : UInt64) (k : Hash → Machine → Vm Machine) (m : Machine) : Vm Machine :=
  m.reading ioOffset 32 fun data => k (ByteArr.ofList 32 data)

def readingPrefix (ioOffset : UInt64) (k : HashPrefix → Machine → Vm Machine) (m : Machine) : Vm Machine :=
  m.reading ioOffset 8 fun data => k (ByteArr.ofList 8 data)

def readingContent (ioOffset : UInt64) (k : AssetData → Machine → Vm Machine) (m : Machine) : Vm Machine :=
  m.reading ioOffset cesvmCodeBlock fun data => k (ByteArr.ofList 210 data)

/-- The end of every syscall that was not cut short: mirror the allowance. -/
def finish (m : Machine) : Vm Machine :=
  .call .allowance fun r => .done (m.set ioAllowance r.toGas)

/-- Report a code. -/
def report (rc : Rc) (m : Machine) : Vm Machine := (m.setS rc.code).finish

/-- Ask the host and report its code. -/
def asking (c : HostCall) (m : Machine) : Vm Machine := .call c fun r => m.report r.toRc

/-- Bill for hosting a run until its time: the clock is read here. -/
def billingSchedule (timeUs : UInt64) (k : Machine → Vm Machine) (m : Machine) : Vm Machine :=
  let r := m.now
  let duration := if r.1 < timeUs then timeUs - r.1 else 0
  r.2.billing (cesvmScheduleBaseCost + cesvmSchedulePerSec * duration / usPerSec) k

/-- Try fresh keys for a range until one does not collide, at most `attempts` times. -/
def rangeAttempts (n : UInt32) (days : UInt16) : Nat → Machine → Vm Machine
  | 0, m => m.report .assetExists
  | attempts + 1, m =>
    let r := randomBytes 24 m
    let firstKey : Hash := ByteArr.ofList 32 r.1
    .call (.createAssetRange firstKey n days) fun reply =>
      if reply.toRc = .assetExists ∧ attempts ≠ 0 then rangeAttempts n days attempts r.2
      else
        let m := r.2.setS reply.toRc.code
        (if reply.toRc = .ok then m.writeIoBytes (m.io 6) firstKey.bytes else m).finish

section

variable (lib : VmLib) (fees : VmFees)

def prepayCost (daysAdded daysHeld : UInt32) : UInt64 :=
  computePrepayCost fees.feeAssetRaw fees.assetRentMultBp daysAdded daysHeld

/-- The days a created asset is billed for. -/
def createDays (days : UInt16) : UInt32 := 2 + (assetDays days).toUInt32

/-- A transfer from the caller or from the program owner. -/
def sysTransfer (c : Hash → UInt64 → HostCall) (m : Machine) : Vm Machine :=
  m.billing cesvmCostPerSyscall fun m =>
  m.readingHash (m.io 4) fun dest m =>
  m.paying fees.feeTx fun m => m.asking (c dest (m.io 5))

/-- A move between the caller and the program owner. -/
def sysMove (c : UInt64 → HostCall) (m : Machine) : Vm Machine :=
  m.billing cesvmCostPerSyscall fun m =>
  m.paying fees.feeTx fun m => m.asking (c (m.io 4))

def sysReadAccount (m : Machine) : Vm Machine :=
  m.billing cesvmCostPerSyscall fun m =>
  m.readingPrefix (m.io 4) fun id m =>
  m.paying fees.feeQuery fun m =>
  .call (.readAccount id) fun r => (m.putAccount r).report .ok

def sysReadAsset (m : Machine) : Vm Machine :=
  m.billing cesvmCostPerSyscall fun m =>
  m.readingHash (m.io 4) fun key m =>
  m.paying fees.feeQuery fun m =>
  .call (.readAsset key) fun r =>
    match r.toAsset with
    | none => m.report .assetNotFound
    | some asset => (m.putAsset asset).report .ok

def sysCreateAssetRandom (m : Machine) : Vm Machine :=
  m.billing cesvmCostPerSyscall fun m =>
  m.readingContent (m.io 4) fun content m =>
  let days := (m.io 5).toUInt16
  m.paying (prepayCost fees (createDays days) 0) fun m =>
  let r := randomBytes 32 m
  let newKey : Hash := ByteArr.ofList 32 r.1
  .call (.createAsset newKey content days) fun reply =>
    let m := r.2.setS reply.toRc.code
    (if reply.toRc = .ok then m.writeIoBytes (m.io 6) newKey.bytes else m).finish

def sysCreateAssetRange (m : Machine) : Vm Machine :=
  m.billing cesvmCostPerSyscall fun m =>
  let n := m.io 4
  if n = 0 ∨ cesvmMaxAssetRange < n.toNat then m.report .badInput
  else
    -- the cells past the first are billed on their own
    (if 1 < n then m.billing (cesvmCostPerSyscall * (n - 1)) else fun k => k m) fun m =>
    let days := (m.io 5).toUInt16
    let per := prepayCost fees (createDays days) 0
    m.paying (if per ≠ 0 ∧ uint64Max / per < n then uint64Max else per * n) fun m =>
    rangeAttempts n.toUInt32 days cesvmAssetRangeRetries m

/-- An asset the caller, or the boot asset, will own. -/
def sysCreateAsset (c : Hash → AssetData → UInt16 → HostCall) (m : Machine) : Vm Machine :=
  m.billing cesvmCostPerSyscall fun m =>
  m.readingHash (m.io 4) fun key m =>
  m.readingContent (m.io 5) fun content m =>
  let days := (m.io 6).toUInt16
  m.paying (prepayCost fees (createDays days) 0) fun m => m.asking (c key content days)

def sysUpdateAsset (m : Machine) : Vm Machine :=
  m.billing cesvmCostPerSyscall fun m =>
  m.readingHash (m.io 4) fun key m =>
  m.readingContent (m.io 5) fun content m =>
  m.paying fees.feeAsset fun m => m.asking (.updateAsset key content)

/-- A change of owner, with or without a price. -/
def sysSetOwner (c : Hash → HashPrefix → Machine → HostCall) (m : Machine) : Vm Machine :=
  m.billing cesvmCostPerSyscall fun m =>
  m.readingHash (m.io 4) fun key m =>
  m.readingPrefix (m.io 5) fun newOwner m =>
  m.paying fees.feeTx fun m => m.asking (c key newOwner m)

/-- The days added are billed at the distance of those held; an unknown asset holds none. -/
def sysFundAsset (m : Machine) : Vm Machine :=
  m.billing cesvmCostPerSyscall fun m =>
  m.readingHash (m.io 4) fun key m =>
  let days := (m.io 5).toUInt16
  .call (.readAsset key) fun r =>
    let held : UInt32 := r.toAsset.elim 0 fun asset => (assetDays asset.balance).toUInt32
    let granted := min 0x0FFF (held + days.toUInt32) - held
    m.paying (fees.feeTx + prepayCost fees granted held) fun m => m.asking (.fundAsset key days)

def sysBuyAsset (m : Machine) : Vm Machine :=
  m.billing cesvmCostPerSyscall fun m =>
  m.readingHash (m.io 4) fun key m =>
  m.paying fees.feeTx fun m => m.asking (.buyAsset key (m.io 5))

/-- The budget grows by what the host grants. -/
def sysRefill (m : Machine) : Vm Machine :=
  m.billing cesvmCostPerSyscall fun m =>
  .call (.refillGas (m.io 4)) fun r =>
    let m := { m with budget := m.budget + r.toGas }
    let m := m.set ioBudgetRemaining (m.budget - m.budgetUsed)
    (m.setR r.toGas).report .ok

/-- The window `[off, off + len)` lies in an alias image. -/
def aliasWindow (off len : UInt64) : Bool :=
  off.toNat ≤ aliasValueBytes && len.toNat ≤ aliasValueBytes && off.toNat + len.toNat ≤ aliasValueBytes

def sysReadAlias (m : Machine) : Vm Machine :=
  m.billing cesvmCostPerSyscall fun m =>
  let aliasId := (m.io 4).toUInt32
  let off := m.io 5
  let len := m.io 6
  if !aliasWindow off len then m.report .badInput
  else
    m.paying fees.feeQuery fun m =>
    .call (.readAlias aliasId off.toNat len.toNat) fun r =>
      match r.toBytes with
      | none => m.report .aliasNotFound
      | some data =>
        let m' := if 0 < len then m.writeIoBytes (m.io 7) (ByteArr.ofList len.toNat data).bytes else m
        if m'.term ≠ .ok then .done m' else (m'.setR len).report .ok

def sysWriteAlias (m : Machine) : Vm Machine :=
  m.billing cesvmCostPerSyscall fun m =>
  let aliasId := (m.io 4).toUInt32
  let off := m.io 5
  let len := m.io 6
  if !aliasWindow off len then m.report .badInput
  else
    (if 0 < len then m.reading (m.io 7) len.toNat else fun k => k [] m) fun src m =>
    m.paying fees.feeAlias fun m => m.asking (.writeAlias aliasId off.toNat src)

def sysLoadCode (m : Machine) : Vm Machine :=
  m.billing cesvmCostPerSyscall fun m =>
  if cesvmMaxCode < m.code.length + cesvmCodeBlock then .done (m.fault .codefull)
  else
    m.readingHash (m.io 4) fun key m =>
    m.paying fees.feeQuery fun m =>
    .call (.readAsset key) fun r =>
      match r.toAsset with
      | none => m.report .assetNotFound
      | some asset =>
        ({ m with code := m.code ++ asset.content.bytes }.setR (UInt64.ofNat m.code.length)).report .ok

def sysLoadCodeAlias (m : Machine) : Vm Machine :=
  m.billing cesvmCostPerSyscall fun m =>
  if cesvmMaxCode < m.code.length + aliasInlineCodeBytes then .done (m.fault .codefull)
  else
    let aliasId := (m.io 4).toUInt32
    m.paying fees.feeQuery fun m =>
    .call (.readAlias aliasId aliasOffContent aliasInlineCodeBytes) fun r =>
      match r.toBytes with
      | none => m.report .aliasNotFound
      | some data =>
        ({ m with code := m.code ++ (ByteArr.ofList aliasInlineCodeBytes data).bytes }.setR
          (UInt64.ofNat m.code.length)).report .ok

/-- The input of a run to queue, at most `cesvmMaxInput` bytes of it. -/
def readingInput (k : Bytes → Machine → Vm Machine) (m : Machine) : Vm Machine :=
  let inputLen := min (m.io 8).toNat cesvmMaxInput
  if 0 < inputLen then m.reading (m.io 7) inputLen k else k [] m

def sysSchedule (m : Machine) : Vm Machine :=
  m.billing cesvmCostPerSyscall fun m =>
  m.readingHash (m.io 4) fun assetKey m =>
  m.readingInput fun input m =>
  m.billingSchedule (m.io 9) fun m => m.asking (.schedule assetKey (m.io 5) (m.io 6) input (m.io 9))

def sysScheduleAlias (m : Machine) : Vm Machine :=
  m.billing cesvmCostPerSyscall fun m =>
  m.readingInput fun input m =>
  m.billingSchedule (m.io 9) fun m =>
  m.asking (.scheduleAlias (m.io 4).toUInt32 (m.io 5) (m.io 6) input (m.io 9))

/-- The one syscall that works on the cells alone. -/
def sysHash (m : Machine) : Vm Machine :=
  m.billing cesvmCostPerMemop fun m =>
  let len := min (m.io 5).toNat cesvmMaxCode
  match byteRange (m.io 4) len, byteRange (m.io 6) 32 with
  | some dataByte, some outByte =>
    let r := m.billMul (UInt64.ofNat len) cesvmCostPerByte
    if r.1 then
      let data := (List.range len).map fun i => r.2.io.byteAt (dataByte + i)
      ({ r.2 with io := r.2.io.patchBytes outByte (lib.sha256 data).bytes }).report .ok
    else .done r.2
  | _, _ => .done (m.fault .segfault)

def sysVerifySig (m : Machine) : Vm Machine :=
  m.billing cesvmCostPerSyscall fun m =>
  let dataLen := min (m.io 5).toNat lib.maxDataSize
  m.billing (UInt64.ofNat dataLen * cesvmCostPerByte + cesvmCostVerifyEc) fun m =>
  m.reading (m.io 4) dataLen fun data m =>
  m.reading (m.io 6) sigSize fun sig m =>
  m.readingHash (m.io 7) fun pubkey m =>
  .call (.verifySig data sig pubkey) fun r => (m.setR (if r.toFlag then 1 else 0)).report .ok

/-- The server's address is a C string of at most 63 bytes. -/
def sysCrossTransfer (m : Machine) : Vm Machine :=
  m.billing cesvmCostPerSyscall fun m =>
  m.readingHash (m.io 4) fun dest m =>
  m.reading (m.io 6) 63 fun addr m =>
  m.paying fees.feeTx fun m => m.asking (.crossTransfer dest (m.io 5) (addr.takeWhile (· ≠ 0)))

def sysSendClient (m : Machine) : Vm Machine :=
  m.billing cesvmCostPerSyscall fun m =>
  m.readingPrefix (m.io 4) fun clientId m =>
  m.reading (m.io 5) (min (m.io 6).toNat lib.maxDataSize) fun data m =>
  m.paying fees.feeSendClient fun m =>
  .call (.sendClient clientId data) fun r => (m.setR (if r.toFlag then 1 else 0)).report .ok

def sysRpc (m : Machine) : Vm Machine :=
  m.billing cesvmCostPerSyscall fun m =>
  let hostLen := m.io 5
  if 255 < hostLen then m.report .badInput
  else
    (if 0 < hostLen then m.reading (m.io 4) hostLen.toNat else fun k => k [] m) fun host m =>
    let port := (m.io 6).toUInt16
    m.readingHash (m.io 7) fun fileHeadKey m =>
    m.readingHash (m.io 8) fun followupKey m =>
    m.asking (.rpc host port fileHeadKey followupKey (m.io 9) (m.io 10).toUInt32)

def sysL2Call (m : Machine) : Vm Machine :=
  m.billing cesvmCostPerSyscall fun m =>
  m.reading (m.io 4) 8 fun disc m =>
  let value := m.io 5
  let blobLen := m.io 7
  if maxL2Blob < blobLen then m.report .badInput
  else
    (if 0 < blobLen then m.reading (m.io 6) blobLen.toNat else fun k => k [] m) fun blob m =>
    m.readingHash (m.io 8) fun followupKey m =>
    m.asking (.l2call disc value blob followupKey (m.io 9) (m.io 10).toUInt32)

/-- `hostCall`: the syscall whose number is in the register. -/
def hostCall (m : Machine) : Vm Machine :=
  match Syscall.ofWord (m.io cellSyscall) with
  | none => (m.fault .syscall).finish
  | some .nop => m.billing cesvmCostPerSyscall fun m => m.report .ok
  | some .readAccount => m.sysReadAccount fees
  | some .transfer => m.sysTransfer fees .transfer
  | some .ownerTransfer => m.sysTransfer fees .ownerTransfer
  | some .deposit => m.sysMove fees .deposit
  | some .withdraw => m.sysMove fees .withdraw
  | some .readAsset => m.sysReadAsset fees
  | some .createAssetRandom => m.sysCreateAssetRandom fees
  | some .createAssetRange => m.sysCreateAssetRange fees
  | some .updateAsset => m.sysUpdateAsset fees
  | some .updateAssetMeta =>
    m.sysSetOwner fees fun key newOwner m => .updateAssetMeta key newOwner (m.io 6).toUInt32
  | some .refill => m.sysRefill
  | some .readAlias => m.sysReadAlias fees
  | some .writeAlias => m.sysWriteAlias fees
  | some .loadCodeAlias => m.sysLoadCodeAlias fees
  | some .scheduleAlias => m.sysScheduleAlias
  | some .fundAsset => m.sysFundAsset fees
  | some .buyAsset => m.sysBuyAsset fees
  | some .giveAsset => m.sysSetOwner fees fun key newOwner _ => .giveAsset key newOwner
  | some .sendUdp => m.billing cesvmCostPerSyscall fun m => m.report .disabled
  | some .hash => m.sysHash lib
  | some .verifySig => m.sysVerifySig lib
  | some .crossTransfer => m.sysCrossTransfer fees
  | some .createAsset => m.sysCreateAsset fees .createAsset
  | some .loadCode => m.sysLoadCode fees
  | some .sendClient => m.sysSendClient lib fees
  | some .schedule => m.sysSchedule
  | some .createAssetManaged => m.sysCreateAsset fees .createAssetManaged
  | some .rpc => m.sysRpc
  | some .l2call => m.sysL2Call

end

end Machine

end Ces
