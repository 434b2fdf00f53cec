import Ces.File.Name
import Ces.Ledger.Mint

/-!
# The file store on disk

A file is a content node and a sidecar node beside it, both under the store directory; a key-value file is a
directory in which the store library keeps its records. `Disk` is all of this, with the open stores and the
names whose deletion was announced, and without the ledger: what is typed on `Disk` cannot move a credit.

TOML text is kept parsed (`Content.sidecar`, `Content.storeMeta`), so that what was written reads back;
`TomlText` gives the printed bytes, and the meaning of bytes nobody printed.
-/

namespace Ces

open Ces.Lib Ces.Lib.Posix

inductive FileType where
  | flat
  | kv
  deriving DecidableEq

structure Sidecar where
  name : Bytes
  ownerPubkey : Hash
  programPubkey : Hash
  programPrivkey : Hash
  pricePerKb : UInt64
  size : UInt64
  createdUs : UInt64
  modifiedUs : UInt64
  lastRentUs : UInt64
  programHash : Hash
  type : FileType
  deriving DecidableEq

structure StoreMeta where
  totalFiles : UInt64
  totalBytes : UInt64
  lastGcUs : UInt64
  deriving DecidableEq

abbrev KvRecords := FMap Bytes Bytes

/-- What a regular file of the store can hold. -/
inductive Content where
  | bytes (data : Bytes)
  | sidecar (sc : Sidecar)
  | storeMeta (m : StoreMeta)
  | kvData (records : KvRecords)

/-- The TOML library: the text of a sidecar and of the store's totals, and what other text parses to. -/
structure TomlText where
  printSidecar : Sidecar → Bytes
  printMeta : StoreMeta → Bytes
  parseSidecar : Bytes → Option Sidecar
  printKv : KvRecords → Bytes

/-- The bytes of a file. -/
def Content.raw (toml : TomlText) : Content → Bytes
  | .bytes data => data
  | .sidecar sc => toml.printSidecar sc
  | .storeMeta m => toml.printMeta m
  | .kvData records => toml.printKv records

/-- An open store: the records, their total size and the size last written to the sidecar. -/
structure KvStore where
  records : KvRecords
  liveBytes : UInt64
  reserved : Option UInt64

structure Disk where
  tree : FileTree Content
  /-- Open stores by content path. -/
  kv : FMap (List Bytes) KvStore
  /-- Names passed to the deletion callbacks, newest first. -/
  deleted : List Bytes

structure FileConfig where
  cesFileStoreDir : List Bytes
  cesFileStoreMaxBytes : UInt64
  feeFileRent : Int
  feeFileWrite : Int
  feeFileRead : Int
  extLocalBudget : UInt64
  toml : TomlText

/-- The steps of a call at which the disk can fail. -/
inductive DiskStep where
  | makeDirs
  | makeStoreDir
  | openStore
  | openContent
  | resizeContent
  | writeContent
  | readContent
  | writeSidecar
  deriving DecidableEq

/-- What a call meets outside the server: the clock, a fresh key pair, the order a directory scan gives, the
size of a store's event log before and after it is compacted, and the disk's faults. -/
structure CallEnv where
  now : UInt64
  progPub : Hash
  progPriv : Hash
  scanOrder : List Location
  eventsSize : UInt64
  eventsSizeSaved : UInt64
  fails : DiskStep → Bool

def kvCompactFloorBytes : UInt64 := 65536
def gcDebounceUs : UInt64 := 900000000
def usecsPerDay : Nat := 86400000000
def maxFileSize : UInt64 := 68719476736
def maxWriteLen : Nat := 1048576
/-- Kibibytes, rounded up. -/
def kbCeil (bytes : UInt64) : UInt64 := (bytes + 1023) / 1024

namespace Disk

variable (d : Disk) (cfg : FileConfig)

/-! ### Sidecars and totals -/

def readSidecar (sPath : List Bytes) : Option Sidecar :=
  match d.tree.read sPath with
  | some (.sidecar sc) => some sc
  | some (.bytes data) => cfg.toml.parseSidecar data
  | _ => none

/-- Written to a temporary file, then renamed. -/
def writeSidecar (env : CallEnv) (sPath : List Bytes) (sc : Sidecar) : Option Disk :=
  if env.fails .writeSidecar then none
  else
    let tmp := appendToPath sPath (ascii ".tmp")
    match d.tree.write tmp (.sidecar sc) with
    | none => none
    | some written => (written.rename tmp sPath).map fun t => { d with tree := t }

/-- The callers that go on whether or not the write succeeded. -/
def saveSidecar (env : CallEnv) (sPath : List Bytes) (sc : Sidecar) : Disk :=
  (d.writeSidecar env sPath sc).getD d

def readStoreMeta : StoreMeta :=
  match d.tree.read (storeMetaPath cfg.cesFileStoreDir) with
  | some (.storeMeta m) => m
  | _ => ⟨0, 0, 0⟩

def writeStoreMeta (m : StoreMeta) : Disk :=
  match d.tree.write (storeMetaPath cfg.cesFileStoreDir) (.storeMeta m) with
  | some t => { d with tree := t }
  | none => d

/-- Add a signed change to a total, stopping at zero. -/
def shiftTotal (total : UInt64) (delta : Int) : UInt64 :=
  if 0 ≤ delta then total + asUInt64 delta else total - min total (asUInt64 (-delta))

def adjustStoreMeta (df db : Int) : Disk :=
  let m := d.readStoreMeta cfg
  d.writeStoreMeta cfg
    { m with totalFiles := shiftTotal m.totalFiles df, totalBytes := shiftTotal m.totalBytes db }

/-! ### Deletion -/

def notifyDeletion (name : Bytes) : Disk := { d with deleted := name :: d.deleted }

def removeContent (cPath : List Bytes) (type : FileType) : Disk :=
  match type with
  | .kv => { d with tree := d.tree.removeAll cPath }
  | .flat => { d with tree := (d.tree.remove cPath).getD d.tree }

def removeFile (path : List Bytes) : Disk := { d with tree := (d.tree.remove path).getD d.tree }

/-- Remove directories that became empty, upwards until `base`. -/
def removeEmptyParents (base : List Bytes) : Nat → List Bytes → FileTree Content → FileTree Content
  | 0, _, t => t
  | fuel + 1, p, t =>
    if p = base then t
    else
      match t.remove p with
      | none => t
      | some t' => removeEmptyParents base fuel p.dropLast t'

def pruneParents (cPath : List Bytes) : Disk :=
  { d with tree := removeEmptyParents cfg.cesFileStoreDir cPath.length cPath.dropLast d.tree }

/-- The end of a file whose rent ran out. -/
def expire (cPath sPath : List Bytes) (sc : Sidecar) : Disk :=
  ((((d.removeContent cPath sc.type).removeFile sPath).pruneParents cfg cPath).adjustStoreMeta cfg (-1)
    (-asInt64 sc.size)).notifyDeletion sc.name

end Disk

/-! ### Rent -/

/-- The rent of `size` bytes over an interval, in 128 bits, clamped to 64. -/
def computeOwedRent (size : UInt64) (feeRent : Int) (lastRentUs nowUs : UInt64) : UInt64 :=
  if nowUs ≤ lastRentUs then 0
  else if feeRent ≤ 0 ∨ size = 0 then 0
  else
    let owed := size.toNat * feeRent.toNat * (nowUs - lastRentUs).toNat % 2 ^ 128 / usecsPerDay
    if 2 ^ 64 - 1 < owed then 0xFFFFFFFFFFFFFFFF else UInt64.ofNat owed

def sidecarHasProgramAccount (sc : Sidecar) : Bool := sc.programPubkey.bytes.any (· != 0)

/-- The balance of a file, zero when it is missing or negative. -/
def readProgramAccountBalance (a : Accounts) (sc : Sidecar) : UInt64 :=
  if sidecarHasProgramAccount sc then asUInt64 (max 0 (a.balance (getHashPrefix sc.programPubkey))) else 0

/-! ### Garbage collection -/

/-- The content path of a sidecar found by a scan. -/
def contentOfSidecar (sPath : Location) : Location :=
  sPath.dropLast ++ [(sPath.getLastD []).take ((sPath.getLastD []).length - sidecarSuffix.length)]

structure GcState where
  reclaimed : UInt64
  filesDelta : Int
  bytesDelta : Int
  disk : Disk

namespace Disk

variable (d : Disk) (cfg : FileConfig)

/-- The sidecar the scan reads at a location, when the file name says it is one. -/
def scannedSidecar (p : Location) : Option Sidecar :=
  if sidecarSuffix.length < (p.getLastD []).length ∧ sidecarSuffix.isSuffixOf (p.getLastD []) then
    d.readSidecar cfg p
  else none

/-- One file of a scan: delete it when its balance does not cover its rent. -/
def gcVisit (env : CallEnv) (a : Accounts) (bytesNeeded : UInt64) (st : GcState) (p : Location) : GcState :=
  match st.disk.scannedSidecar cfg p with
  | none => st
  | some sc =>
    if 0 < bytesNeeded ∧ bytesNeeded ≤ st.reclaimed then st
    else if isServerZone sc.name then st
    else if computeOwedRent sc.size cfg.feeFileRent sc.lastRentUs env.now ≤ readProgramAccountBalance a sc then st
    else
      let cPath := contentOfSidecar p
      { reclaimed := st.reclaimed + sc.size
        filesDelta := st.filesDelta - 1
        bytesDelta := st.bytesDelta - asInt64 sc.size
        disk := (((st.disk.removeContent cPath sc.type).removeFile p).pruneParents cfg cPath).notifyDeletion
          sc.name }

def gcReclaim (env : CallEnv) (a : Accounts) (bytesNeeded : UInt64) : Disk :=
  let st := env.scanOrder.foldl (gcVisit cfg env a bytesNeeded) ⟨0, 0, 0, d⟩
  if st.filesDelta ≠ 0 ∨ st.bytesDelta ≠ 0 then st.disk.adjustStoreMeta cfg st.filesDelta st.bytesDelta
  else st.disk

/-- Room for `addBytes` under the cap, after a collection when the last one is long enough ago. -/
def checkCapAndMaybeGc (env : CallEnv) (a : Accounts) (addBytes : UInt64) : Rc × Disk :=
  let m := d.readStoreMeta cfg
  if m.totalBytes + addBytes ≤ cfg.cesFileStoreMaxBytes then (.ok, d)
  else if m.lastGcUs ≠ 0 ∧ env.now - m.lastGcUs < gcDebounceUs then (.storeFull, d)
  else
    let collected := d.gcReclaim cfg env a (m.totalBytes + addBytes - cfg.cesFileStoreMaxBytes)
    let m' := collected.readStoreMeta cfg
    let d' := collected.writeStoreMeta cfg { m' with lastGcUs := env.now }
    if cfg.cesFileStoreMaxBytes < m'.totalBytes + addBytes then (.storeFull, d') else (.ok, d')

end Disk

end Ces
