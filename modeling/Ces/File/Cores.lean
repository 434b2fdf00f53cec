import Ces.File.Billing

/-!
# Writing, appending and resizing

One body a verb, shared by the wire and the in-process adapters. The checks come in the order of the source;
`withSidecar`, `withRent` and `onlyOwner` are the checks most bodies open with, and take the rest of the body.
A body's ledger writes all happen in one `transact`; what follows it is typed on `Disk`.
-/

namespace Ces

open Ces.Lib Ces.Lib.Posix

/-- Status and balance reported by a verb. -/
structure BalanceOutcome where
  status : Rc
  balance : UInt64
  deriving DecidableEq

/-- `AppendOutcome` and `ResizeOutcome`. -/
structure SizeOutcome where
  status : Rc
  balance : UInt64
  size : UInt64
  deriving DecidableEq

namespace FileServer

variable (f : FileServer) (env : CallEnv)

def contentPath (name : Bytes) : List Bytes := resolveContentPath f.files.cesFileStoreDir name

def sidecarPath (name : Bytes) : List Bytes := resolveSidecarPath f.files.cesFileStoreDir name

def saveSidecar (name : Bytes) (sc : Sidecar) : FileServer :=
  { f with disk := f.disk.saveSidecar env (f.sidecarPath name) sc }

section opening

variable {α : Type}

/-- Go on with the sidecar of a valid name. -/
def withSidecar (name : Bytes) (refuse : Rc → α) (next : Sidecar → α × FileServer) : α × FileServer :=
  if validateCesFileName name ≠ .ok then (refuse (validateCesFileName name), f)
  else
    match f.disk.readSidecar f.files (f.sidecarPath name) with
    | none => (refuse .fileNotFound, f)
    | some sc => next sc

/-- Roll the rent, save the sidecar and go on, unless the file expired. -/
def withRent (name : Bytes) (sc : Sidecar) (refuse : Rc → α) (next : FileServer → Sidecar → α × FileServer) :
    α × FileServer :=
  match f.chargeRentOrDelete env (f.contentPath name) (f.sidecarPath name) sc with
  | (none, f') => (refuse .fileNotFound, f')
  | (some sc', f') => next (f'.saveSidecar env name sc') sc'

def onlyOwner (caller : Hash) (sc : Sidecar) (refuse : Rc → α) (next : α × FileServer) : α × FileServer :=
  if sc.ownerPubkey ≠ caller then (refuse .notOwner, f) else next

end opening

def reportedBalance (prog : Hash) : UInt64 := asUInt64 (f.balance prog)

/-- The rent of the first collection window, paid before any growth. -/
def upfrontRent (size : UInt64) : UInt64 := computeOwedRent size f.files.feeFileRent 0 gcDebounceUs

/-- `checkCapAndMaybeGc` on the server's disk. -/
def capCheck (addBytes : UInt64) : Rc × FileServer :=
  match f.disk.checkCapAndMaybeGc f.files env f.accounts addBytes with
  | (rc, d) => (rc, { f with disk := d })

/-- The file's balance covers the amount, as signed numbers. -/
def holds (prog : Hash) (amount : UInt64) (a : Accounts) : Bool :=
  decide (asInt64 amount ≤ a.balance (getHashPrefix prog))

/-! ### Write, append, resize -/

/-- The file must hold `total` before the fee is taken. -/
def affords (prog : Hash) (total : UInt64) (a : Accounts) : Bool :=
  decide (total = 0) || holds prog total a

/-- What growth and writes cost the file itself. -/
def payFromFile (prog : Hash) (total : UInt64) (a : Accounts) : Accounts :=
  if 0 < total then (a.debitAccount prog total).2 else a

def writeCostOf (name : Bytes) (length : UInt64) : UInt64 :=
  if isServerZone name then 0 else kbCeil length * asUInt64 f.files.feeFileWrite

/-- Put `body` at `offset`, extending the content when it ends early. -/
def overwrite (content : Bytes) (offset : Nat) (body : Bytes) : Bytes :=
  content.take offset ++ List.replicate (offset - content.length) 0 ++ body ++ content.drop (offset + body.length)

/-- Change the content bytes of a flat file, then its sidecar, which is the result when both worked. -/
def rewriteOnDisk (d : Disk) (name : Bytes) (step : DiskStep) (change : Bytes → Bytes)
    (resized : Sidecar → Sidecar) : Option Sidecar × Disk :=
  match if env.fails step then none else d.tree.read (f.contentPath name) with
  | some (.bytes data) =>
    match d.tree.write (f.contentPath name) (.bytes (change data)) with
    | none => (none, d)
    | some t =>
      let d := { d with tree := t }
      match d.readSidecar f.files (f.sidecarPath name) with
      | none => (none, d)
      | some sc =>
        let sc' := { resized sc with modifiedUs := env.now, programHash := ByteArr.zero 32 }
        match d.writeSidecar env (f.sidecarPath name) sc' with
        | none => (none, d)
        | some d' => (some sc', d')
  | _ => (none, d)

def writeCore (name : Bytes) (offset : UInt64) (body : Bytes) (caller : Hash) (bill : L2Billing) :
    BalanceOutcome × FileServer :=
  if body.length = 0 ∨ maxWriteLen < body.length then (⟨.badInput, 0⟩, f)
  else
    let length := UInt64.ofNat body.length
    f.withSidecar name (⟨·, 0⟩) fun sc =>
      match f.chargeRentOrDelete env (f.contentPath name) (f.sidecarPath name) sc with
      | (none, f) => (⟨.fileNotFound, 0⟩, f)
      | (some sc, f) =>
        f.onlyOwner caller sc (⟨·, 0⟩) <|
          if sc.size < offset ∨ sc.size < offset + length then (⟨.badInput, 0⟩, f)
          else
            let f := f.saveSidecar env name sc
            let writeCost := f.writeCostOf name length
            let prog := sc.programPubkey
            match f.transact bill (affords prog writeCost) (asInt64 f.server.cfg.feeQuery)
                (payFromFile prog writeCost) with
            | (⟨.ok, true⟩, f') => (⟨.ok, f'.reportedBalance prog⟩, f')
            | (⟨.ok, false⟩, f') =>
              match f'.rewriteOnDisk env f'.disk name .writeContent (overwrite · offset.toNat body) id with
              | (none, d) => (⟨.internal, 0⟩, { f' with disk := d })
              | (some _, d) => (⟨.ok, f'.reportedBalance prog⟩, { f' with disk := d })
            | (⟨rc, _⟩, f') => (⟨rc, 0⟩, f')

/-- The disk part of growing or shrinking, with the store's totals. -/
def resizeOnDisk (d : Disk) (name : Bytes) (step : DiskStep) (change : Bytes → Bytes) (newSize : UInt64)
    (bytesDelta : Int) : Option Sidecar × Disk :=
  match f.rewriteOnDisk env d name step change ({ · with size := newSize }) with
  | (none, d) => (none, d)
  | (some sc, d) =>
    (some sc, if isServerZone name ∨ bytesDelta = 0 then d else d.adjustStoreMeta f.files 0 bytesDelta)

/-- The end of append and resize: charge, then change the content. -/
def growCore (name : Bytes) (sc : Sidecar) (total : UInt64) (bill : L2Billing) (step : DiskStep)
    (change : Bytes → Bytes) (newSize : UInt64) (bytesDelta : Int) : SizeOutcome × FileServer :=
  let prog := sc.programPubkey
  match f.transact bill (affords prog total) (asInt64 f.server.cfg.feeQuery) (payFromFile prog total) with
  | (⟨.ok, true⟩, f') =>
    match f'.disk.readSidecar f'.files (f'.sidecarPath name) with
    | none => (⟨.internal, 0, 0⟩, f')
    | some stored => (⟨.ok, f'.reportedBalance prog, stored.size⟩, f')
  | (⟨.ok, false⟩, f') =>
    match f'.resizeOnDisk env f'.disk name step change newSize bytesDelta with
    | (none, d) => (⟨.internal, 0, 0⟩, { f' with disk := d })
    | (some stored, d) => (⟨.ok, f'.reportedBalance prog, stored.size⟩, { f' with disk := d })
  | (⟨rc, _⟩, f') => (⟨rc, 0, 0⟩, f')

/-- Room under the cap for a growth outside the server's zone. -/
def capFor (name : Bytes) (grow : UInt64) : Rc × FileServer :=
  if isServerZone name ∨ grow = 0 then (.ok, f) else f.capCheck env grow

def appendCore (name : Bytes) (body : Bytes) (caller : Hash) (bill : L2Billing) : SizeOutcome × FileServer :=
  if body.length = 0 ∨ maxWriteLen < body.length then (⟨.badInput, 0, 0⟩, f)
  else
    let length := UInt64.ofNat body.length
    f.withSidecar name (⟨·, 0, 0⟩) fun sc =>
      f.withRent env name sc (⟨·, 0, 0⟩) fun f sc =>
        f.onlyOwner caller sc (⟨·, 0, 0⟩) <|
          if maxFileSize - sc.size < length then (⟨.badInput, 0, 0⟩, f)
          else
            match f.capFor env name length with
            | (.ok, f) =>
              let upfront := if isServerZone name then 0 else f.upfrontRent length
              f.growCore env name sc (f.writeCostOf name length + upfront) bill .writeContent
                (overwrite · sc.size.toNat body) (sc.size + length) (asInt64 length)
            | (rc, f) => (⟨rc, 0, 0⟩, f)

def resizeCore (name : Bytes) (newSize : UInt64) (caller : Hash) (bill : L2Billing) : SizeOutcome × FileServer :=
  if newSize = 0 ∨ maxFileSize < newSize then (⟨.badInput, 0, 0⟩, f)
  else
    f.withSidecar name (⟨·, 0, 0⟩) fun sc =>
      f.withRent env name sc (⟨·, 0, 0⟩) fun f sc =>
        f.onlyOwner caller sc (⟨·, 0, 0⟩) <|
          let bytesDelta := int64 (asInt64 newSize - asInt64 sc.size)
          let grow := if 0 < bytesDelta then asUInt64 bytesDelta else 0
          match f.capFor env name grow with
          | (.ok, f) =>
            let upfront := if isServerZone name then 0 else f.upfrontRent grow
            f.growCore env name sc upfront bill .resizeContent
              (fun data => data.take newSize.toNat ++ List.replicate (newSize.toNat - data.length) 0) newSize
              bytesDelta
          | (rc, f) => (⟨rc, 0, 0⟩, f)

end FileServer

end Ces
