import Ces.File.Rules

/-!
# What other handlers ask of the file store

The calls the compute and mail handlers make into the file handler. None of them checks the name it is given:
it goes to path resolution as it is, while the server's zone is recognised by its first three characters.
-/

namespace Ces

open Ces.Lib Ces.Lib.Posix

def hexDigit (v : UInt8) : UInt8 := if v < 10 then v + 48 else v - 10 + 97

def hexEncode (data : Bytes) : Bytes := data.flatMap fun b => [hexDigit (b / 16), hexDigit (b % 16)]

namespace FileServer

variable (f : FileServer) (env : CallEnv)

/-- `debitProgramAccount` of the file handler: a file without an account cannot pay. -/
def debitProgramAccount (sc : Sidecar) (amount : UInt64) : Bool × FileServer :=
  if sidecarHasProgramAccount sc then f.debitProgramAccountSync sc amount else (false, f)

def creditProgramAccount (sc : Sidecar) (amount : UInt64) : FileServer :=
  if sidecarHasProgramAccount sc then f.setAccounts (f.accounts.brrInner sc.programPubkey (asInt64 amount))
  else f

/-- Continue with the sidecar of any string, its rent rolled forward. -/
def withMetered {α : Type} (name : Bytes) (failed : α) (next : FileServer → Sidecar → α × FileServer) :
    α × FileServer :=
  match f.disk.readSidecar f.files (f.sidecarPath name) with
  | none => (failed, f)
  | some sc =>
    match f.chargeRentOrDelete env (f.contentPath name) (f.sidecarPath name) sc with
    | (none, f) => (failed, f)
    | (some sc, f) => next f sc

/-- Save the sidecar with a new modification time; the result is whether that worked. -/
def trySaveModified (name : Bytes) (sc : Sidecar) : Bool × FileServer :=
  match f.disk.writeSidecar env (f.sidecarPath name) { sc with modifiedUs := env.now } with
  | none => (false, f)
  | some d => (true, { f with disk := d })

def creditBalance (name : Bytes) (amount : UInt64) : Bool × FileServer :=
  if amount = 0 then (true, f)
  else if isServerZone name then (true, f)
  else f.withMetered env name false fun f sc => (f.creditProgramAccount sc amount).trySaveModified env name sc

/-- Charge a file. One that cannot pay is deleted. -/
def debitBalance (name : Bytes) (amount : UInt64) : Bool × FileServer :=
  if isServerZone name then (true, f)
  else
    f.withMetered env name false fun f sc =>
      match f.debitProgramAccount sc amount with
      | (true, f) => f.trySaveModified env name sc
      | (false, f) =>
        let removed := (f.disk.removeFile (f.contentPath name)).removeFile (f.sidecarPath name)
        let counted :=
          (removed.pruneParents f.files (f.contentPath name)).adjustStoreMeta f.files (-1) (-asInt64 sc.size)
        (false, { f with disk := counted.notifyDeletion sc.name })

/-- The bytes at a name's path, whatever file that is. -/
def fileBytes (name : Bytes) : Option Bytes := (f.disk.tree.read (f.contentPath name)).map (·.raw f.files.toml)

def attachmentSize (name : Bytes) : Option UInt64 := (f.fileBytes name).map fun data => UInt64.ofNat data.length

def readAttachment (name : Bytes) (maxBytes : UInt64) : Except Rc Bytes :=
  match f.fileBytes name with
  | none => .error .fileNotFound
  | some data => if maxBytes.toNat < data.length then .error .badInput else .ok data

end FileServer

end Ces
