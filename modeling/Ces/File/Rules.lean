import Ces.File.Cores
import Ces.Ledger.Moves

/-!
# Rules for the file verbs

The rules of `withSidecar` and `onlyOwner` take a verb's body apart in the order of its checks; what a verb does
before its ledger transaction only touches the disk.
-/

namespace Ces

open Ces.Lib Ces.Lib.Posix

namespace FileServer

variable {f : FileServer} {env : CallEnv} {bill : L2Billing}

/-- The request was seen before; only nonceless signed requests are remembered. -/
def isReplay (f : FileServer) : L2Billing → Bool
  | .signer _ reqNonce sigHash _ => reqNonce == Accounts.nonceless && f.dedup.contains sigHash
  | _ => false

/-! ### The transaction -/

/-- Only a request that was seen before is a duplicate. -/
theorem charge_duplicate (f : FileServer) (bill : L2Billing) (cost : Int) :
    (f.charge bill cost).1.duplicate = f.isReplay bill := by
  unfold charge
  cases bill with
  | free => rfl
  | source prog metered =>
    dsimp only
    split_ifs
    · rfl
    · rcases f.accounts.debitAccount prog (asUInt64 cost) with ⟨_ | _, a⟩ <;> rfl
  | signer key reqNonce sigHash errFee =>
    dsimp only
    by_cases hreplay : reqNonce = Accounts.nonceless ∧ sigHash ∈ f.dedup
    · rw [if_pos hreplay]
      simp [isReplay, hreplay.1, hreplay.2]
    · rw [if_neg hreplay]
      have hfresh : f.isReplay (.signer key reqNonce sigHash errFee) = false := by simpa [isReplay] using hreplay
      rw [hfresh]
      rcases f.accounts.signerSpend key (asUInt64 cost) reqNonce errFee with ⟨rc, a⟩
      cases rc <;> rfl

/-! ### Opening a file -/

/-- The rent a file owes at the moment of the call. -/
def owedRent (f : FileServer) (env : CallEnv) (sc : Sidecar) : UInt64 :=
  computeOwedRent sc.size f.files.feeFileRent sc.lastRentUs env.now

section rules

variable {α : Type} {P : α × FileServer → Prop} {name : Bytes} {refuse : Rc → α}

theorem withSidecar_rule {next : Sidecar → α × FileServer} (hrefuse : ∀ rc, rc ≠ Rc.ok → P (refuse rc, f))
    (hnext : ∀ sc, f.disk.readSidecar f.files (f.sidecarPath name) = some sc → P (next sc)) :
    P (f.withSidecar name refuse next) := by
  unfold withSidecar
  split_ifs with hname
  · exact hrefuse _ hname
  · cases hread : f.disk.readSidecar f.files (f.sidecarPath name) with
    | none => exact hrefuse _ (by decide)
    | some sc => exact hnext sc hread

theorem onlyOwner_rule {caller : Hash} {sc : Sidecar} {next : α × FileServer} (hrefuse : P (refuse .notOwner, f))
    (hnext : P next) : P (f.onlyOwner caller sc refuse next) := by
  unfold onlyOwner
  split_ifs
  · exact hrefuse
  · exact hnext

end rules

/-! ### What only touches the disk -/

theorem isReplay_congr {f' : FileServer} (h : f'.dedup = f.dedup) : f'.isReplay bill = f.isReplay bill := by
  cases bill <;> simp [isReplay, h]

theorem capCheck_disk (f : FileServer) (env : CallEnv) (addBytes : UInt64) :
    ∃ d, (f.capCheck env addBytes).2 = { f with disk := d } := ⟨_, rfl⟩

theorem capFor_disk (f : FileServer) (env : CallEnv) (name : Bytes) (grow : UInt64) :
    ∃ d, (f.capFor env name grow).2 = { f with disk := d } := by
  unfold capFor
  split_ifs
  · exact ⟨f.disk, rfl⟩
  · exact f.capCheck_disk env grow

end FileServer

/-! ### A store with one file -/

def ownerKey : Hash := ByteArr.ofList 32 (List.replicate 32 1)
def programKey : Hash := ByteArr.ofList 32 (List.replicate 32 2)

/-- A quiet moment: the clock stands at the file's last charge and the disk does not fail. -/
def quietEnv : CallEnv where
  now := 1000
  progPub := ByteArr.zero 32
  progPriv := ByteArr.zero 32
  scanOrder := []
  eventsSize := 0
  eventsSizeSaved := 0
  fails := fun _ => false

def programSidecar : Sidecar where
  name := ascii "/p/a"
  ownerPubkey := ownerKey
  programPubkey := programKey
  programPrivkey := ByteArr.zero 32
  pricePerKb := 0
  size := 1
  createdUs := 1000
  modifiedUs := 1000
  lastRentUs := 1000
  programHash := ByteArr.zero 32
  type := .flat

/-- One file `/p/a` of one byte, whose account holds 5000. -/
def ownFileServer : FileServer where
  server := .load .stock (ByteArr.zero 32)
    ((∅ : FMap HashPrefix Account).insert (getHashPrefix programKey) (.ofKey programKey 5000 0)) ∅ ∅
  files :=
    { cesFileStoreDir := [ascii "d"], cesFileStoreMaxBytes := 1000, feeFileRent := 1, feeFileWrite := 1
      feeFileRead := 1, extLocalBudget := 0
      toml := ⟨fun _ => [], fun _ => [], fun _ => none, fun _ => []⟩ }
  disk :=
    { tree := ⟨(((∅ : FMap Location (Node Content)).insert [ascii "d"] .dir).insert
        [ascii "d", ascii "p"] .dir).insert [ascii "d", ascii "p", ascii "a.sidecar.toml"]
          (.file (.sidecar programSidecar))⟩
      kv := ∅, deleted := [] }
  dedup := []
  sourceInsufficient := false

end Ces
