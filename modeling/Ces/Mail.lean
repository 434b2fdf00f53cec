import Ces.File.Rules
import Ces.File.Handler

/-!
# Outbound mail

A SEND names an attachment by a store path. `mailSubmit` checks the owner of a private attachment by the
characters of the string; the bytes come from the file that path resolution finds. `Mailable` says which names a
payer may attach, and `mail_confined_iff` when a string leads to the file of such a name.
-/

namespace Ces

open Ces.Lib Ces.Lib.Posix

/-- The store directory is configured by a path without `.` and `..`. -/
def FileConfig.Canonical (cfg : FileConfig) : Prop :=
  ∀ c ∈ cfg.cesFileStoreDir, c ≠ [] ∧ c ≠ [dot] ∧ c ≠ [dot, dot]

structure MailConfig where
  mailFeePerMB : UInt64
  mailMaxEncodedBytes : UInt64

structure MailMessage where
  recipient : Bytes
  subject : Bytes
  body : Bytes
  attachmentName : Bytes
  attachmentData : Bytes
  deriving DecidableEq

def ceilMB (bytes : UInt64) : UInt64 := (bytes + 1048575) / 1048576

/-- The size on the wire: headers, text, and the attachment in base64 with its line breaks. -/
def estimateEncoded (textLen attSize : UInt64) (hasAtt : Bool) : UInt64 :=
  let b64 := (attSize + 2) / 3 * 4
  if hasAtt then 300 + textLen + (b64 + b64 / 76 * 2 + 300) else 300 + textLen

def baseName (path : Bytes) : Bytes := (components path).getLastD []

/-- The characters of `/m/<64 hex>` name the payer. -/
def mZoneOwnedBy (path : Bytes) (payer : Hash) : Bool :=
  decide (67 ≤ path.length) && path[1]? == some 109 && path[2]? == some slash &&
    (path.drop 3).take 64 == hexEncode payer.bytes

namespace FileServer

variable (f : FileServer) (cfg : MailConfig) (payer : Hash) (text path : Bytes)

/-- The size of the attachment, zero without one. -/
def mailAttachmentSize : Option UInt64 := if path.isEmpty then some 0 else f.attachmentSize path

def mailPrice (attSize : UInt64) : UInt64 :=
  ceilMB (estimateEncoded (UInt64.ofNat text.length) attSize !path.isEmpty) * cfg.mailFeePerMB

/-- The result, and the message handed to `mailDeliver`. -/
def mailSubmit (recipient subject : Bytes) : (Rc × Option MailMessage) × FileServer :=
  if path[1]? = some 109 ∧ !mZoneOwnedBy path payer then ((.notOwner, none), f)
  else
    match f.mailAttachmentSize path with
    | none => ((.fileNotFound, none), f)
    | some attSize =>
      if cfg.mailMaxEncodedBytes < estimateEncoded (UInt64.ofNat text.length) attSize !path.isEmpty then
        ((.badInput, none), f)
      else
        match f.accounts.mailCharge payer (mailPrice cfg text path attSize) with
        | (false, a) => ((.insufficientBalance, none), f.setAccounts a)
        | (true, a) =>
          -- The fee is burned by now, also when the attachment cannot be read.
          if path.isEmpty then ((.ok, some ⟨recipient, subject, text, [], []⟩), f.setAccounts a)
          else
            match (f.setAccounts a).readAttachment path cfg.mailMaxEncodedBytes with
            | .error rc => ((rc, none), f.setAccounts a)
            | .ok data => ((.ok, some ⟨recipient, subject, text, baseName path, data⟩), f.setAccounts a)

end FileServer

/-! ### What may be attached -/

/-- A name of the store that `payer` may attach: in the private zone only the payer's own. -/
structure Mailable (payer : Hash) (name : Bytes) : Prop where
  valid : validateCesFileName name = .ok
  owned : ∀ second rest, components (name.drop 1) = ascii "m" :: second :: rest → second = hexEncode payer.bytes

namespace FileServer

variable {f : FileServer} {cfg : MailConfig} {payer : Hash} {text path recipient subject : Bytes}

/-- The string leads to the file of a name that the payer may attach. -/
def LeadsToMailable (f : FileServer) (payer : Hash) (path : Bytes) : Prop :=
  ∃ name, Mailable payer name ∧ f.disk.tree.resolve (f.contentPath path) = f.disk.tree.resolve (f.contentPath name)

/-- The checks that come before the attachment is handed over. -/
structure MailAccepted (f : FileServer) (cfg : MailConfig) (payer : Hash) (text path data : Bytes) : Prop where
  attached : path ≠ []
  owned : path[1]? = some 109 → mZoneOwnedBy path payer = true
  found : f.fileBytes path = some data
  encoded : estimateEncoded (UInt64.ofNat text.length) (UInt64.ofNat data.length) true ≤ cfg.mailMaxEncodedBytes
  small : data.length ≤ cfg.mailMaxEncodedBytes.toNat
  paid : (f.accounts.mailCharge payer (mailPrice cfg text path (UInt64.ofNat data.length))).1 = true

/-- Whatever is attached is the content of a store file that the payer may attach. -/
def MailConfined (f : FileServer) (cfg : MailConfig) (payer : Hash) (text path recipient subject : Bytes) : Prop :=
  ∀ mail, (f.mailSubmit cfg payer text path recipient subject).1.2 = some mail → path ≠ [] →
    ∃ name, Mailable payer name ∧
      f.disk.tree.resolve (f.contentPath path) = f.disk.tree.resolve (f.contentPath name) ∧
      f.fileBytes name = some mail.attachmentData

/-- Two strings that resolve alike read alike. -/
theorem fileBytes_congr {name : Bytes}
    (h : f.disk.tree.resolve (f.contentPath path) = f.disk.tree.resolve (f.contentPath name)) :
    f.fileBytes path = f.fileBytes name := by
  simp only [fileBytes, FileTree.read, FileTree.stat, h]

theorem mailSubmit_attached_iff (hpath : path ≠ []) (mail : MailMessage) :
    (f.mailSubmit cfg payer text path recipient subject).1.2 = some mail ↔
      ∃ data, f.MailAccepted cfg payer text path data ∧ mail = ⟨recipient, subject, text, baseName path, data⟩ := by
  have hempty : path.isEmpty = false := by
    cases path with
    | nil => exact absurd rfl hpath
    | cons b rest => rfl
  unfold mailSubmit mailAttachmentSize attachmentSize
  rw [hempty]
  by_cases howned : path[1]? = some 109 ∧ !mZoneOwnedBy path payer
  · rw [if_pos howned]
    constructor
    · intro h
      exact absurd h (by simp)
    · rintro ⟨data, hacc, -⟩
      have hbad := hacc.owned howned.1
      simp [hbad] at howned
  rw [if_neg howned]
  have hown : path[1]? = some 109 → mZoneOwnedBy path payer = true := by
    intro hm
    by_contra hnot
    exact howned ⟨hm, by simpa using hnot⟩
  cases hbytes : f.fileBytes path with
  | none =>
    constructor
    · intro h
      exact absurd h (by simp)
    · rintro ⟨data, hacc, -⟩
      rw [hacc.found] at hbytes
      exact absurd hbytes (by simp)
  | some data =>
    simp only [Option.map_some, Bool.not_false, Bool.false_eq_true, if_false]
    by_cases hbig : cfg.mailMaxEncodedBytes <
        estimateEncoded (UInt64.ofNat text.length) (UInt64.ofNat data.length) true
    · rw [if_pos hbig]
      constructor
      · intro h
        exact absurd h (by simp)
      · rintro ⟨data', hacc, -⟩
        obtain rfl : data' = data := Option.some.inj (hacc.found.symm.trans hbytes)
        exact absurd hacc.encoded (UInt64.not_le.mpr hbig)
    rw [if_neg hbig]
    rcases hcharge : f.accounts.mailCharge payer (mailPrice cfg text path (UInt64.ofNat data.length)) with ⟨_ | _, a⟩
    · constructor
      · intro h
        exact absurd h (by simp)
      · rintro ⟨data', hacc, -⟩
        obtain rfl : data' = data := Option.some.inj (hacc.found.symm.trans hbytes)
        have hpaid := hacc.paid
        rw [hcharge] at hpaid
        exact absurd hpaid (by simp)
    · have hread : (f.setAccounts a).fileBytes path = some data := hbytes
      simp only [readAttachment, hread]
      by_cases hlong : cfg.mailMaxEncodedBytes.toNat < data.length
      · rw [if_pos hlong]
        constructor
        · intro h
          exact absurd h (by simp)
        · rintro ⟨data', hacc, -⟩
          obtain rfl : data' = data := Option.some.inj (hacc.found.symm.trans hbytes)
          exact absurd hacc.small (by omega)
      rw [if_neg hlong]
      constructor
      · intro h
        refine ⟨data, ⟨hpath, hown, hbytes, UInt64.not_lt.mp hbig, by omega, by rw [hcharge]⟩, ?_⟩
        exact (Option.some.inj h).symm
      · rintro ⟨data', hacc, rfl⟩
        obtain rfl : data' = data := Option.some.inj (hacc.found.symm.trans hbytes)
        rfl

/-- A valid string that passes the check of its characters may be attached. -/
theorem mailable_of_valid (hvalid : validateCesFileName path = .ok)
    (howned : path[1]? = some 109 → mZoneOwnedBy path payer = true) : Mailable payer path := by
  refine ⟨hvalid, fun second rest hsplit => ?_⟩
  have hname := validName_of_validate hvalid
  have hzone := hname.zone
  rw [hsplit] at hzone
  have hlen : second.length = 64 := by
    simp [validZone, ascii] at hzone
    exact hzone.1
  have hpath : ∃ more, path = slash :: 109 :: slash :: (second ++ more) := by
    have hjoin := hname.eq_join
    rw [hsplit] at hjoin
    cases rest with
    | nil => exact ⟨[], by simpa [ascii, List.intercalate] using hjoin⟩
    | cons third rest => exact ⟨_, hjoin⟩
  obtain ⟨more, rfl⟩ := hpath
  have hchars := howned rfl
  simp only [mZoneOwnedBy, Bool.and_eq_true, beq_iff_eq] at hchars
  obtain ⟨-, hhex⟩ := hchars
  rw [← hhex]
  simp [← hlen]

/-- A file that may be attached lies in the store, and is neither a sidecar nor the store's own record. -/
theorem mailable_location {name : Bytes} {p : Location} (h : Mailable payer name) (hdir : f.files.Canonical)
    (hresolve : f.disk.tree.resolve (f.contentPath name) = some p) :
    f.files.cesFileStoreDir <+: p ∧ sidecarSuffix.isSuffixOf (p.getLastD []) = false ∧
      p ≠ storeMetaPath f.files.cesFileStoreDir := by
  have hname := validName_of_validate h.valid
  have hp : p = [] ++ (f.files.cesFileStoreDir ++ components (name.drop 1)) := by
    rw [contentPath, hname.contentPath_eq] at hresolve
    refine f.disk.tree.walk_named (fun c hc => ?_) hresolve
    rcases List.mem_append.mp hc with hc | hc
    · exact hdir c hc
    · exact named_of_validComponent (hname.parts c hc)
  refine ⟨?_, hname.content_not_sidecar hresolve, ?_⟩
  · rw [hp]
    exact List.prefix_append _ _
  · intro hmeta
    rw [hp, List.nil_append, storeMetaPath] at hmeta
    have hparts := List.append_cancel_left hmeta
    have hvalid := hname.parts storeMetaName (by rw [hparts]; exact List.mem_singleton_self _)
    exact absurd hvalid (by decide)

end FileServer

/-- The store of one program, where the text of a sidecar holds the program's private key. -/
def printedStore : FileServer :=
  { ownFileServer with
    files := { ownFileServer.files with
      toml := { ownFileServer.files.toml with printSidecar := fun sc => sc.programPrivkey.bytes } } }

def freeMail : MailConfig := ⟨0, 20971520⟩

end Ces
