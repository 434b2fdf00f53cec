import Ces.File.Rules

/-!
# Garbage collection and rent

Two functions decide that a file is dead: `chargeRentOrDelete` tries to debit the rent, `gcReclaim` compares the
rent with the balance. `Collects` follows the scan of `gcReclaim` and says which files its visits delete; these are
the deletions it announces (`mem_deleted_gcReclaim`). A visit deletes by one test (`gcVisit_deletes_iff`), and a
collection only removes nodes, so whatever it deletes was a sidecar of the store when it began
(`collects_scanned`), and the comparison of the two functions is one of a single sidecar.
-/

namespace Ces

open Ces.Lib Ces.Lib.Posix Ces.Lib.Posix.FileTree

namespace Disk

variable {d d' : Disk} {cfg : FileConfig} {env : CallEnv} {a : Accounts} {need : UInt64} {st : GcState}

/-! ### What a collection does to the tree -/

theorem within_removeContent (d : Disk) (cPath : List Bytes) (type : FileType) :
    (d.removeContent cPath type).tree.Within d.tree := by
  cases type with
  | kv => exact within_removeAll d.tree cPath
  | flat => exact within_getD_remove d.tree cPath

theorem within_removeEmptyParents (base : List Bytes) (fuel : Nat) (p : List Bytes) (t : FileTree Content) :
    (removeEmptyParents base fuel p t).Within t := by
  induction fuel generalizing p t with
  | zero => exact Within.refl t
  | succ fuel ih =>
    unfold removeEmptyParents
    split_ifs
    · exact Within.refl t
    cases hremove : t.remove p with
    | none => exact Within.refl t
    | some t' => exact (ih p.dropLast t').trans (within_remove hremove)

/-- A file a scan deletes: content, sidecar, and the parents that became empty. -/
theorem within_collected (d : Disk) (cfg : FileConfig) (cPath sPath : List Bytes) (type : FileType) (name : Bytes) :
    ((((d.removeContent cPath type).removeFile sPath).pruneParents cfg cPath).notifyDeletion name).tree.Within
      d.tree :=
  (within_removeEmptyParents cfg.cesFileStoreDir cPath.length cPath.dropLast _).trans
    ((within_getD_remove (d.removeContent cPath type).tree sPath).trans (d.within_removeContent cPath type))

theorem within_gcVisit (st : GcState) (p : Location) :
    (gcVisit cfg env a need st p).disk.tree.Within st.disk.tree := by
  unfold gcVisit
  cases st.disk.scannedSidecar cfg p with
  | none => exact Within.refl _
  | some sc =>
    dsimp only
    split_ifs
    · exact Within.refl _
    · exact Within.refl _
    · exact Within.refl _
    · exact st.disk.within_collected cfg _ p sc.type sc.name

theorem readSidecar_of_within (h : d'.tree.Within d.tree) {sPath : List Bytes} {sc : Sidecar}
    (hread : d'.readSidecar cfg sPath = some sc) : d.readSidecar cfg sPath = some sc := by
  unfold readSidecar at *
  cases hc : d'.tree.read sPath with
  | none => simp [hc] at hread
  | some content =>
    rw [hc] at hread
    rw [h.read hc]
    exact hread

theorem scannedSidecar_of_within (h : d'.tree.Within d.tree) {p : Location} {sc : Sidecar}
    (hscan : d'.scannedSidecar cfg p = some sc) : d.scannedSidecar cfg p = some sc := by
  unfold scannedSidecar at *
  split_ifs at * with hname
  exact readSidecar_of_within h hscan

/-! ### The files a collection deletes -/

/-- The scan from `st` deletes the file of `sc`: it comes to the sidecar `sc`, and the visit leaves no sidecar there. -/
def Collects (cfg : FileConfig) (env : CallEnv) (a : Accounts) (need : UInt64) :
    GcState → List Location → Sidecar → Prop
  | _, [], _ => False
  | st, p :: rest, sc =>
    (st.disk.scannedSidecar cfg p = some sc ∧ (gcVisit cfg env a need st p).disk.scannedSidecar cfg p = none) ∨
      Collects cfg env a need (gcVisit cfg env a need st p) rest sc

/-- A file is dead to the collector: outside the server's zone, with more rent than balance. -/
def GcDead (cfg : FileConfig) (env : CallEnv) (a : Accounts) (sc : Sidecar) : Prop :=
  isServerZone sc.name = false ∧
    readProgramAccountBalance a sc < computeOwedRent sc.size cfg.feeFileRent sc.lastRentUs env.now

theorem scannedSidecar_collected (d : Disk) (cfg : FileConfig) (cPath : List Bytes) (p : Location) (type : FileType)
    (name : Bytes) :
    ((((d.removeContent cPath type).removeFile p).pruneParents cfg cPath).notifyDeletion name).scannedSidecar cfg p =
      none := by
  by_contra hsome
  obtain ⟨sc, hsc⟩ := Option.ne_none_iff_exists'.mp hsome
  have hscan : ((d.removeContent cPath type).removeFile p).scannedSidecar cfg p = some sc :=
    scannedSidecar_of_within (within_removeEmptyParents _ _ _ _) hsc
  unfold scannedSidecar readSidecar at hscan
  rw [show ((d.removeContent cPath type).removeFile p).tree.read p = none from read_getD_remove _ _] at hscan
  simp at hscan

/-- A visit that comes to a sidecar deletes its file when it is dead and not enough was reclaimed before, and else
changes nothing. -/
theorem gcVisit_cases (env : CallEnv) (a : Accounts) (need : UInt64) (st : GcState) {p : Location} {sc : Sidecar}
    (hscan : st.disk.scannedSidecar cfg p = some sc) :
    (¬(0 < need ∧ need ≤ st.reclaimed) ∧ GcDead cfg env a sc ∧
        (gcVisit cfg env a need st p).disk.scannedSidecar cfg p = none ∧
        (gcVisit cfg env a need st p).disk.deleted = sc.name :: st.disk.deleted) ∨
      (¬(¬(0 < need ∧ need ≤ st.reclaimed) ∧ GcDead cfg env a sc) ∧ gcVisit cfg env a need st p = st) := by
  unfold GcDead gcVisit
  rw [hscan]
  dsimp only
  split_ifs with henough hzone hcovered
  · exact .inr ⟨fun h => h.1 henough, rfl⟩
  · exact .inr ⟨fun h => absurd (hzone.symm.trans h.2.1) (by decide), rfl⟩
  · exact .inr ⟨fun h => absurd h.2.2 (UInt64.not_lt.mpr hcovered), rfl⟩
  · refine .inl ⟨henough, ⟨Bool.not_eq_true _ ▸ hzone, UInt64.not_le.mp hcovered⟩,
      st.disk.scannedSidecar_collected cfg _ p sc.type sc.name, ?_⟩
    cases hkind : sc.type <;> rfl

/-- The test of a visit. -/
theorem gcVisit_deletes_iff (st : GcState) {p : Location} {sc : Sidecar}
    (hscan : st.disk.scannedSidecar cfg p = some sc) :
    (gcVisit cfg env a need st p).disk.scannedSidecar cfg p = none ↔
      ¬(0 < need ∧ need ≤ st.reclaimed) ∧ GcDead cfg env a sc := by
  rcases gcVisit_cases env a need st hscan with ⟨hroom, hdead, hgone, -⟩ | ⟨hlive, hsame⟩
  · exact ⟨fun _ => ⟨hroom, hdead⟩, fun _ => hgone⟩
  · rw [hsame, hscan]
    exact ⟨nofun, fun h => absurd h hlive⟩

/-- The names a scan announces are those it found announced and those of the files it deletes. -/
theorem mem_deleted_foldl_gcVisit (order : List Location) (st : GcState) (name : Bytes) :
    name ∈ (order.foldl (gcVisit cfg env a need) st).disk.deleted ↔
      name ∈ st.disk.deleted ∨ ∃ sc, Collects cfg env a need st order sc ∧ sc.name = name := by
  induction order generalizing st with
  | nil => simp [Collects]
  | cons p rest ih =>
    rw [List.foldl_cons, ih]
    cases hscan : st.disk.scannedSidecar cfg p with
    | none =>
      have hsame : gcVisit cfg env a need st p = st := by
        unfold gcVisit
        rw [hscan]
      simp [Collects, hscan, hsame]
    | some sc =>
      rcases gcVisit_cases env a need st hscan with ⟨-, -, hgone, hname⟩ | ⟨-, hsame⟩
      · rw [hname, List.mem_cons]
        simp only [Collects, hscan, hgone, and_true, Option.some.injEq]
        constructor
        · rintro ((rfl | hold) | ⟨sc', hlater, rfl⟩)
          · exact .inr ⟨sc, .inl rfl, rfl⟩
          · exact .inl hold
          · exact .inr ⟨sc', .inr hlater, rfl⟩
        · rintro (hold | ⟨sc', rfl | hlater, rfl⟩)
          · exact .inl (.inr hold)
          · exact .inl (.inl rfl)
          · exact .inr ⟨sc', hlater, rfl⟩
      · simp [Collects, hscan, hsame]

/-- What a scan deletes was a dead file of the store when the scan began. -/
theorem collects_scanned {order : List Location} {sc : Sidecar} (hsc : Collects cfg env a need st order sc) :
    ∃ p ∈ order, st.disk.scannedSidecar cfg p = some sc ∧ GcDead cfg env a sc := by
  induction order generalizing st with
  | nil => exact absurd hsc id
  | cons p rest ih =>
    rcases hsc with ⟨hscan, hgone⟩ | hlater
    · exact ⟨p, List.mem_cons_self, hscan, ((gcVisit_deletes_iff st hscan).mp hgone).2⟩
    · obtain ⟨q, hq, hscan, hdead⟩ := ih hlater
      exact ⟨q, List.mem_cons_of_mem p hq, scannedSidecar_of_within (within_gcVisit st p) hscan, hdead⟩

/-- The deletions `gcReclaim` announces. -/
theorem mem_deleted_gcReclaim (d : Disk) (cfg : FileConfig) (env : CallEnv) (a : Accounts) (need : UInt64)
    (name : Bytes) :
    name ∈ (d.gcReclaim cfg env a need).deleted ↔
      name ∈ d.deleted ∨ ∃ sc, Collects cfg env a need ⟨0, 0, 0, d⟩ env.scanOrder sc ∧ sc.name = name := by
  have hmeta : ∀ (d' : Disk) df db, (d'.adjustStoreMeta cfg df db).deleted = d'.deleted := by
    intro d' df db
    unfold adjustStoreMeta writeStoreMeta
    dsimp only
    split <;> rfl
  refine Iff.trans ?_ (mem_deleted_foldl_gcVisit env.scanOrder ⟨0, 0, 0, d⟩ name)
  unfold gcReclaim
  dsimp only
  split_ifs
  · rw [hmeta]
  · rfl

/-- A complete scan, in whatever order the directories come. -/
def Scan (d : Disk) (order : List Location) : Prop := order.Nodup ∧ order.toFinset = d.tree.nodes.keys

/-- Any location can come first. -/
theorem exists_scan_cons (d : Disk) {p : Location} (hp : p ∈ d.tree.nodes.keys) :
    ∃ rest, d.Scan (p :: rest) := by
  refine ⟨(d.tree.nodes.keys.erase p).toList, ?_, ?_⟩
  · rw [List.nodup_cons]
    exact ⟨by simp, Finset.nodup_toList _⟩
  · rw [List.toFinset_cons, Finset.toList_toFinset, Finset.insert_erase hp]

end Disk

namespace FileServer

variable {f : FileServer} {env : CallEnv}

/-- `gcReclaim`, asked for `need` bytes, deletes the file of `sc`. -/
def Collects (f : FileServer) (env : CallEnv) (need : UInt64) (sc : Sidecar) : Prop :=
  Disk.Collects f.files env f.accounts need ⟨0, 0, 0, f.disk⟩ env.scanOrder sc

/-- The program account of the file is missing, or holds less than the rent read as a signed number. -/
def RentRefused (f : FileServer) (env : CallEnv) (sc : Sidecar) : Prop :=
  ∀ acc, f.accounts.find (getHashPrefix sc.programPubkey) = some acc → acc.getBalance < asInt64 (f.owedRent env sc)

/-- The rent roll deletes a file exactly when it is metered, owes something and the debit is refused. -/
theorem chargeRentOrDelete_none_iff (f : FileServer) (env : CallEnv) (cPath sPath : List Bytes) (sc : Sidecar) :
    (f.chargeRentOrDelete env cPath sPath sc).1 = none ↔
      isServerZone sc.name = false ∧ sc.type = .flat ∧ f.owedRent env sc ≠ 0 ∧ f.RentRefused env sc := by
  unfold chargeRentOrDelete RentRefused owedRent
  by_cases hzone : isServerZone sc.name = true
  · simp [hzone]
  rw [if_neg hzone]
  rw [Bool.not_eq_true] at hzone
  cases htype : sc.type with
  | kv => simp
  | flat =>
    generalize computeOwedRent sc.size f.files.feeFileRent sc.lastRentUs env.now = owed
    by_cases howed : owed = 0
    · simp [howed]
    simp only [hzone, howed, reduceCtorEq, if_false, debitProgramAccountSync, Accounts.debitProgramAccount,
      true_and, ne_eq, not_false_eq_true]
    cases hfind : f.accounts.find (getHashPrefix sc.programPubkey) with
    | none => simp
    | some acc =>
      by_cases hlow : acc.getBalance < asInt64 owed
      · simp [hlow]
      · simp [hlow]

end FileServer

/-- The names that `gcReclaim` announces as deleted are those of the files it collects. Every file that a collection
deletes, in whatever order and for however many bytes, is one the rent roll would delete at the same moment, exactly
when the store holds no key-value file that owes more than its account holds and no flat file whose debit goes
through although it owes more than it holds. -/
theorem gc_agrees_with_rent_iff (f : FileServer) (env : CallEnv) :
    (∀ need name, name ∈ (f.disk.gcReclaim f.files env f.accounts need).deleted ↔
      name ∈ f.disk.deleted ∨ ∃ sc, f.Collects env need sc ∧ sc.name = name) ∧
    ((∀ order need, f.disk.Scan order → ∀ sc, f.Collects { env with scanOrder := order } need sc →
      ∀ cPath sPath, (f.chargeRentOrDelete env cPath sPath sc).1 = none) ↔
    ∀ p ∈ f.disk.tree.nodes.keys, ∀ sc, f.disk.scannedSidecar f.files p = some sc →
      isServerZone sc.name = false → readProgramAccountBalance f.accounts sc < f.owedRent env sc →
        sc.type = .flat ∧ f.RentRefused env sc) := by
  refine ⟨fun need name => f.disk.mem_deleted_gcReclaim f.files env f.accounts need name, ?_, ?_⟩
  · intro h p hp sc hscan hzone hshort
    -- The file is the first one of some scan, and a scan that needs no bytes stops at nothing.
    obtain ⟨rest, horder⟩ := f.disk.exists_scan_cons hp
    have hcollects : f.Collects { env with scanOrder := p :: rest } 0 sc :=
      .inl ⟨hscan, (Disk.gcVisit_deletes_iff _ hscan).mpr ⟨by simp, hzone, hshort⟩⟩
    obtain ⟨-, hflat, -, hrefused⟩ :=
      (f.chargeRentOrDelete_none_iff env [] [] sc).mp (h _ 0 horder sc hcollects [] [])
    exact ⟨hflat, hrefused⟩
  · intro h order need horder sc hsc cPath sPath
    obtain ⟨p, hp, hscan, hzone, hshort⟩ := Disk.collects_scanned hsc
    have hkey : p ∈ f.disk.tree.nodes.keys := by
      rw [← horder.2]
      exact List.mem_toFinset.mpr hp
    obtain ⟨hflat, hrefused⟩ := h p hkey sc hscan hzone hshort
    refine (f.chargeRentOrDelete_none_iff env cPath sPath sc).mpr ⟨hzone, hflat, ?_, hrefused⟩
    rintro hnone
    have hshort' : readProgramAccountBalance f.accounts sc < f.owedRent env sc := hshort
    rw [hnone] at hshort'
    exact absurd hshort' (by simp)

/-! ### A key-value store that is collected -/

/-- The sidecar a key-value store is created with. Its key has no account. -/
def storeSidecar : Sidecar :=
  { programSidecar with
    name := ascii "/p/kv", type := .kv, size := kvCompactFloorBytes
    programPubkey := ByteArr.ofList 32 (List.replicate 32 3) }

/-- One key-value store `/p/kv`. -/
def soleStore : FileServer :=
  { ownFileServer with
    disk :=
      { tree := ⟨((((∅ : FMap Location (Node Content)).insert [ascii "d"] .dir).insert
          [ascii "d", ascii "p"] .dir).insert [ascii "d", ascii "p", ascii "kv"] .dir).insert
            [ascii "d", ascii "p", ascii "kv.sidecar.toml"] (.file (.sidecar storeSidecar))⟩
        kv := ∅, deleted := [] } }

/-- One day later. -/
def dayLater : CallEnv :=
  { quietEnv with
    now := 86400001000
    scanOrder := [[ascii "d"], [ascii "d", ascii "p"], [ascii "d", ascii "p", ascii "kv"],
      [ascii "d", ascii "p", ascii "kv.sidecar.toml"]] }

/-- The rent roll never touches a key-value store. The collector compares the rent of its size with the balance of
an account no such store has, and removes it. -/
theorem gc_collects_store :
    soleStore.disk.Scan dayLater.scanOrder ∧ soleStore.Collects dayLater 1 storeSidecar ∧
      (soleStore.disk.gcReclaim soleStore.files dayLater soleStore.accounts 1).readSidecar soleStore.files
        (soleStore.sidecarPath storeSidecar.name) = none ∧
      (soleStore.chargeRentOrDelete dayLater (soleStore.contentPath storeSidecar.name)
        (soleStore.sidecarPath storeSidecar.name) storeSidecar).1 = some storeSidecar := by
  refine ⟨⟨by decide +kernel, by decide +kernel⟩, ?_, by decide +kernel, by decide +kernel⟩
  -- the directories are passed over, the sidecar is the last stop
  refine .inr (.inr (.inr (.inl ⟨?_, ?_⟩))) <;> decide +kernel

end Ces
