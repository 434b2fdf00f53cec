import Ces.Ledger.Coherence

/-!
# Patches of an alias, over the wire and by a program

`setAlias` and `VmHost.writeAlias` check a patch in their own order. `MayPatch` is what both come to: the cell is
live, the patch fits, it starts at or behind the floor of its principal, and the hook of the patched image, if it is
one, points at code that cannot change under the account. A program without a principal is refused before any of
that.
-/

namespace Ces

open Ces.Lib CesServer

/-! ### The image of an alias -/

/-- Every image is the image of an alias. -/
theorem Alias.image_ofImage (i : ByteArr 1020) : (Alias.ofImage i).image = i := by
  have hsize := i.size_eq
  have hop : leBytes 2 (UInt16.ofNat (leNat (i.slice aliasOffOp 2).bytes)).toNat = (i.slice aliasOffOp 2).bytes := by
    have hlen : (i.slice aliasOffOp 2).bytes.length = 2 := (i.slice aliasOffOp 2).size_eq
    have hread := leBytes_leNat (i.slice aliasOffOp 2).bytes
    rw [hlen] at hread
    have hlt := leNat_lt (i.slice aliasOffOp 2).bytes
    rw [hlen] at hlt
    rw [UInt16.toNat_ofNat_of_lt' hlt, hread]
  apply ByteArr.ext
  rw [Alias.bytes_image]
  unfold Alias.ofImage
  dsimp only
  rw [hop, ByteArr.bytes_slice _ (by decide), ByteArr.bytes_slice _ (by decide), ByteArr.bytes_slice _ (by decide),
    ByteArr.bytes_slice _ (by decide)]
  have hrest : (i.bytes.drop aliasOffContent).take 1002 = i.bytes.drop aliasOffContent := by
    refine List.take_of_length_le ?_
    rw [List.length_drop, hsize]
    decide
  have hsplit : ∀ a n, (i.bytes.drop a).take n ++ i.bytes.drop (a + n) = i.bytes.drop a := fun a n => by
    rw [← List.drop_drop, List.take_append_drop]
  calc (i.bytes.drop 0).take 8 ++ (i.bytes.drop aliasOffEditor).take 8 ++ (i.bytes.drop aliasOffOp).take 2 ++
        (i.bytes.drop aliasOffContent).take 1002
      = (i.bytes.drop 0).take 8 ++ ((i.bytes.drop 8).take 8 ++ ((i.bytes.drop 16).take 2 ++ i.bytes.drop 18)) := by
        rw [hrest, List.append_assoc, List.append_assoc]
        rfl
    _ = i.bytes := by
        rw [hsplit 16 2, hsplit 8 8, hsplit 0 8, List.drop_zero]

/-! ### The common rule -/

/-- The rule for a patch of the stored alias `al` in the name of `principal`. -/
structure MayPatch (s : CesServer) (principal : HashPrefix) (offset : Nat) (bytes : Bytes) (al : Alias) : Prop where
  fits : offset + bytes.length ≤ aliasValueBytes
  floor : al.owner = principal ∧ aliasPatchMinOwner ≤ offset ∨ al.editor = principal ∧ aliasPatchMinEditor ≤ offset
  target : VmHost.hookTargetOk s (.ofImage (al.image.patch offset bytes)) principal = true

namespace MayPatch

variable {s : CesServer} {principal : HashPrefix} {offset : Nat} {bytes : Bytes} {al : Alias}

theorem behind_owner (h : MayPatch s principal offset bytes al) : aliasPatchMinOwner ≤ offset := by
  rcases h.floor with ⟨-, hfloor⟩ | ⟨-, hfloor⟩
  · exact hfloor
  · exact le_trans (by decide) hfloor

/-- Only the bytes of the patch change, never the owner, and the header only in the owner's name. -/
theorem image (h : MayPatch s principal offset bytes al) :
    (Alias.ofImage (al.image.patch offset bytes)).image.bytes =
        al.image.bytes.take offset ++ bytes ++ al.image.bytes.drop (offset + bytes.length) ∧
      (Alias.ofImage (al.image.patch offset bytes)).owner = al.owner ∧
      (al.owner ≠ principal → (Alias.ofImage (al.image.patch offset bytes)).editor = al.editor ∧
        (Alias.ofImage (al.image.patch offset bytes)).op = al.op) := by
  refine ⟨?_, Alias.owner_patch h.behind_owner h.fits, fun hother => ?_⟩
  · rw [Alias.image_ofImage]
    exact ByteArr.bytes_patch _ h.fits
  · rcases h.floor with ⟨howner, -⟩ | ⟨-, hfloor⟩
    · exact absurd howner hother
    · exact ⟨Alias.editor_patch hfloor h.fits, Alias.op_patch hfloor h.fits⟩

end MayPatch

/-! ### The two validators -/

/-- The floor, as the validators test it. -/
theorem floor_iff {al : Alias} {principal : HashPrefix} {offset : Nat} :
    (al.owner = principal ∧ aliasPatchMinOwner ≤ offset ∨ al.editor = principal ∧ aliasPatchMinEditor ≤ offset) ↔
      ¬(al.owner ≠ principal ∧ al.editor ≠ principal) ∧
        ¬offset < (if al.owner = principal then aliasPatchMinOwner else aliasPatchMinEditor) := by
  have hfloors : aliasPatchMinOwner ≤ aliasPatchMinEditor := by decide
  by_cases howner : al.owner = principal
  · rw [if_pos howner]
    simp only [howner, true_and, ne_eq, not_true_eq_false, false_and, not_false_eq_true, not_lt]
    exact ⟨fun h => h.elim id fun h => hfloors.trans h.2, .inl⟩
  · rw [if_neg howner]
    simp [howner]

/-- A program's patch goes through exactly under the rule, if it has a principal. -/
theorem writeAlias_ok_iff (h : VmHost) (id : UInt32) (offset : Nat) (bytes : Bytes) :
    (h.writeAlias id offset bytes).1 = .ok ↔ h.programOwner ≠ ByteArr.zero 8 ∧ id ≠ 0 ∧
      ∃ al, h.server.aliases.lookup id = some al ∧ MayPatch h.server h.programOwner offset bytes al := by
  unfold VmHost.writeAlias
  by_cases hnobody : h.programOwner = ByteArr.zero 8
  · rw [if_pos hnobody]
    exact iff_of_false (fun h => nomatch h) fun h => h.1 hnobody
  by_cases hid : id = 0
  · rw [if_neg hnobody, if_pos hid]
    exact iff_of_false (fun h => nomatch h) fun h => h.2.1 hid
  rw [if_neg hnobody, if_neg hid]
  cases hal : h.server.aliases.lookup id with
  | none => exact iff_of_false (fun h => nomatch h) fun ⟨_, _, al, h, _⟩ => nomatch h
  | some al =>
    have hright : (h.programOwner ≠ ByteArr.zero 8 ∧ id ≠ 0 ∧
        ∃ al', some al = some al' ∧ MayPatch h.server h.programOwner offset bytes al') ↔
        MayPatch h.server h.programOwner offset bytes al :=
      ⟨fun ⟨_, _, _, heq, hmay⟩ => Option.some.inj heq ▸ hmay, fun hmay => ⟨hnobody, hid, al, rfl, hmay⟩⟩
    rw [hright]
    dsimp only
    by_cases hparty : al.owner ≠ h.programOwner ∧ al.editor ≠ h.programOwner
    · rw [if_pos hparty]
      exact iff_of_false (fun h => nomatch h) fun hmay => (floor_iff.mp hmay.floor).1 hparty
    by_cases hwide : aliasValueBytes < offset + bytes.length
    · rw [if_neg hparty, if_pos hwide]
      exact iff_of_false (fun h => nomatch h) fun hmay => not_lt.mpr hmay.fits hwide
    by_cases hlow : offset < (if al.owner = h.programOwner then aliasPatchMinOwner else aliasPatchMinEditor)
    · rw [if_neg hparty, if_neg hwide, if_pos hlow]
      exact iff_of_false (fun h => nomatch h) fun hmay => (floor_iff.mp hmay.floor).2 hlow
    rw [if_neg hparty, if_neg hwide, if_neg hlow]
    cases htarget : VmHost.hookTargetOk h.server (.ofImage (al.image.patch offset bytes)) h.programOwner with
    | false => exact iff_of_false (fun h => nomatch h) fun hmay => nomatch htarget.symm.trans hmay.target
    | true => exact iff_of_true rfl ⟨not_lt.mp hwide, floor_iff.mpr ⟨hparty, hlow⟩, htarget⟩

/-- Then it is made. -/
theorem aliases_writeAlias {h : VmHost} {id : UInt32} {offset : Nat} {bytes : Bytes} {al : Alias}
    (hok : (h.writeAlias id offset bytes).1 = .ok) (hal : h.server.aliases.lookup id = some al) :
    (h.writeAlias id offset bytes).2.server.aliases =
      h.server.aliases.insert id (.ofImage (al.image.patch offset bytes)) := by
  unfold VmHost.writeAlias at hok ⊢
  rw [hal] at hok ⊢
  dsimp only at hok ⊢
  split_ifs at hok ⊢ <;> rfl

section wire

variable {s : CesServer} {originKey : Hash} {acc : Account} {aliasId : UInt32} {offset : UInt16} {bytes : Bytes}
  {providedNonce : UInt32} {fee errFee : Int}

/-- The cell of a patch that names one: it has to be live, and the principal's floor is checked. -/
theorem aliasTarget_of_ne (hid : aliasId ≠ 0) {al : Alias} (hal : s.aliases.lookup aliasId = some al)
    (hmin : aliasPatchMinOwner ≤ offset.toNat) (origin : HashPrefix) :
    aliasTarget s origin acc aliasId offset =
      if al.owner = origin ∧ aliasPatchMinOwner ≤ offset.toNat ∨ al.editor = origin ∧ aliasPatchMinEditor ≤ offset.toNat
      then .ok (false, aliasId, al) else .error .notOwner := by
  unfold aliasTarget
  dsimp only
  rw [if_neg hid, if_neg hid, if_neg hid, hal]
  dsimp only
  by_cases howner : al.owner = origin
  · simp [howner, hmin]
  · by_cases heditor : al.editor = origin
    · simp only [howner, heditor, if_false, if_true, false_and, true_and, false_or]
      by_cases hlow : offset.toNat < aliasPatchMinEditor
      · rw [if_pos hlow, if_neg (not_le.mpr hlow)]
      · rw [if_neg hlow, if_pos (not_lt.mp hlow)]
    · simp [howner, heditor]

/-- An existing account whose fee and nonce are right. -/
structure Fit (s : CesServer) (originKey : Hash) (providedNonce : UInt32) (fee errFee : Int) : Prop where
  found : s.accounts.find (getHashPrefix originKey) ≠ none
  spend : (s.accounts.validateSpend (getHashPrefix originKey) 0
    (asUInt64 (s.discountedFlatFee fee s.cfg.feeAlias .accountRent)) providedNonce (s.errorFee errFee)).1 = .ok

/-- An accepted operation of an origin that can pay. -/
theorem CesServer.paidOp_accepted {origin : HashPrefix} {cost : UInt64} {t : CesServer}
    (hspend : (s.accounts.validateSpend origin 0 cost providedNonce errFee).1 = .ok) :
    s.paidOp origin cost providedNonce errFee (.accepted t) = (.ok, t.debit origin cost) := by
  unfold paidOp spend spendOr
  rcases hresult : s.accounts.validateSpend origin 0 cost providedNonce errFee with ⟨rc, a⟩
  rw [hresult] at hspend
  obtain rfl : rc = .ok := hspend
  rfl

/-- A wire patch of a named cell goes through exactly under the rule, fee and nonce aside. -/
theorem setAlias_ok_iff (hfit : Fit s originKey providedNonce fee errFee) (hid : aliasId ≠ 0) :
    (setAlias s originKey aliasId offset bytes providedNonce fee errFee).rcode = .ok ↔
      ∃ al, s.aliases.lookup aliasId = some al ∧ MayPatch s (getHashPrefix originKey) offset.toNat bytes al := by
  obtain ⟨acc, hacc⟩ := Option.ne_none_iff_exists'.mp hfit.found
  unfold setAlias
  dsimp only
  rw [hacc]
  dsimp only
  by_cases hbounds : offset.toNat < aliasPatchMinOwner ∨ aliasValueBytes < offset.toNat + bytes.length
  · rw [if_pos hbounds]
    refine iff_of_false (fun h => nomatch h) fun ⟨al, _, hmay⟩ => ?_
    exact hbounds.elim (not_lt.mpr hmay.behind_owner) (not_lt.mpr hmay.fits)
  rw [if_neg hbounds]
  rw [not_or, not_lt, not_lt] at hbounds
  cases hal : s.aliases.lookup aliasId with
  | none =>
    have hmissing : aliasTarget s (getHashPrefix originKey) acc aliasId offset = .error .aliasNotFound := by
      unfold aliasTarget
      dsimp only
      rw [if_neg hid, if_neg hid, if_neg hid, hal]
    rw [hmissing]
    exact iff_of_false (fun h => nomatch h) fun ⟨al, h, _⟩ => nomatch h
  | some al =>
    rw [aliasTarget_of_ne hid hal hbounds.1]
    by_cases hfloor : al.owner = getHashPrefix originKey ∧ aliasPatchMinOwner ≤ offset.toNat ∨
        al.editor = getHashPrefix originKey ∧ aliasPatchMinEditor ≤ offset.toNat
    · rw [if_pos hfloor]
      dsimp only
      cases htarget : VmHost.hookTargetOk s (.ofImage (al.image.patch offset.toNat bytes)) (getHashPrefix originKey)
        with
      | false =>
        refine iff_of_false (fun h => nomatch h) fun ⟨al', heq, hmay⟩ => ?_
        obtain rfl := Option.some.inj heq
        exact nomatch htarget.symm.trans hmay.target
      | true =>
        refine iff_of_true ?_ ⟨al, rfl, hbounds.2, hfloor, htarget⟩
        change (s.paidOp _ _ _ _ (commitAlias s _ false aliasId _)).1 = .ok
        unfold commitAlias
        rw [Bool.not_false, if_pos rfl, CesServer.paidOp_accepted hfit.spend]
    · rw [if_neg hfloor]
      refine iff_of_false (fun h => nomatch h) fun ⟨al', heq, hmay⟩ => ?_
      obtain rfl := Option.some.inj heq
      exact hfloor hmay.floor

/-- Then it is made. -/
theorem aliases_setAlias (hfit : Fit s originKey providedNonce fee errFee) (hid : aliasId ≠ 0) {al : Alias}
    (hal : s.aliases.lookup aliasId = some al) (hmay : MayPatch s (getHashPrefix originKey) offset.toNat bytes al) :
    (setAlias s originKey aliasId offset bytes providedNonce fee errFee).server.aliases =
      s.aliases.insert aliasId (.ofImage (al.image.patch offset.toNat bytes)) := by
  obtain ⟨acc, hacc⟩ := Option.ne_none_iff_exists'.mp hfit.found
  have hbounds : ¬(offset.toNat < aliasPatchMinOwner ∨ aliasValueBytes < offset.toNat + bytes.length) := by
    rw [not_or, not_lt, not_lt]
    exact ⟨hmay.behind_owner, hmay.fits⟩
  unfold setAlias
  dsimp only
  rw [hacc]
  dsimp only
  rw [if_neg hbounds, aliasTarget_of_ne hid hal hmay.behind_owner, if_pos hmay.floor]
  dsimp only
  rw [hmay.target]
  change (s.paidOp _ _ _ _ (commitAlias s _ false aliasId _)).2.aliases = _
  unfold commitAlias
  rw [Bool.not_false, if_pos rfl, CesServer.paidOp_accepted hfit.spend]
  rfl

end wire

/-! ### Agreement -/

/-- The wire and a program with the same principal accept the same patches of a named cell and leave the same
aliases; an accepted patch changes the bytes it names in that cell and nothing else, never the owner, and the header
only in the owner's name. A program is refused the generator cell, and neither changes it. -/
theorem alias_patch_agrees (s : CesServer) (originKey : Hash) (h : VmHost) (id : UInt32) (offset : UInt16)
    (bytes : Bytes) (providedNonce : UInt32) (fee errFee : Int) (hserver : h.server = s)
    (hprincipal : h.programOwner = getHashPrefix originKey) (hsomebody : getHashPrefix originKey ≠ ByteArr.zero 8)
    (hid : id ≠ 0) (hfit : Fit s originKey providedNonce fee errFee) :
    let wire := setAlias s originKey id offset bytes providedNonce fee errFee
    let vm := h.writeAlias id offset.toNat bytes
    (wire.rcode = .ok ↔ vm.1 = .ok) ∧
      (wire.rcode = .ok → wire.server.aliases = vm.2.server.aliases ∧
        ∃ al al', s.aliases.lookup id = some al ∧ wire.server.aliases = s.aliases.insert id al' ∧
          wire.server.aliases.lookup 0 = s.aliases.lookup 0 ∧
          al'.image.bytes = al.image.bytes.take offset.toNat ++ bytes ++
            al.image.bytes.drop (offset.toNat + bytes.length) ∧
          offset.toNat + bytes.length ≤ aliasValueBytes ∧ al'.owner = al.owner ∧
          (al.owner ≠ getHashPrefix originKey →
            aliasOffContent ≤ offset.toNat ∧ al'.editor = al.editor ∧ al'.op = al.op)) ∧
      (∀ offset' : Nat, (h.writeAlias 0 offset' bytes).1 ≠ .ok) ∧
      ∀ offset' : Nat, aliasValueBytes < offset' → (h.writeAlias id offset' bytes).1 ≠ .ok := by
  intro wire vm
  subst hserver
  have hvm := writeAlias_ok_iff h id offset.toNat bytes
  have hwire : wire.rcode = .ok ↔ _ := setAlias_ok_iff hfit hid
  rw [hprincipal] at hvm
  refine ⟨?_, fun hok => ?_, fun offset' => ?_, fun offset' hfar => ?_⟩
  · rw [hwire, hvm]
    exact ⟨fun hmay => ⟨hsomebody, hid, hmay⟩, fun hmay => hmay.2.2⟩
  · obtain ⟨al, hal, hmay⟩ := hwire.mp hok
    have hmade : wire.server.aliases = _ := aliases_setAlias hfit hid hal hmay
    have hvmok : vm.1 = .ok := hvm.mpr ⟨hsomebody, hid, al, hal, hmay⟩
    obtain ⟨hbytes, howner, hheader⟩ := hmay.image
    refine ⟨hmade.trans (aliases_writeAlias hvmok hal).symm, al, _, hal, hmade, ?_, hbytes, hmay.fits, howner,
      fun hother => ⟨?_, hheader hother⟩⟩
    · rw [hmade]
      exact Finmap.lookup_insert_of_ne _ hid.symm
    · exact (hmay.floor.resolve_left fun hown => hother hown.1).2
  · rw [Ne, writeAlias_ok_iff]
    exact fun h => h.2.1 rfl
  · rw [Ne, writeAlias_ok_iff]
    rintro ⟨-, -, al, -, hmay⟩
    have := hmay.fits
    omega

/-- An account and the alias it owns. -/
def patchServer (key : Hash) : CesServer :=
  .load .stock (ByteArr.ofList 32 [9])
    ((∅ : FMap HashPrefix Account).insert (getHashPrefix key) { Account.ofKey key 1000000000 0 with aliasId := 5 }) ∅
    ((∅ : FMap UInt32 Alias).insert 5 ⟨getHashPrefix key, ByteArr.zero 8, 0, ByteArr.zero 1002⟩)

/-- A program with that account as its principal. -/
def patchHost (key : Hash) : VmHost :=
  .ofRequest (patchServer key)
    ⟨ByteArr.zero 8, ByteArr.zero 32, ByteArr.zero 32, getHashPrefix key, [], [], 0, 0, 1, false, false, 0, 0⟩

/-- The owner patches the last byte of the image. -/
theorem alias_patch_agrees_last :
    (setAlias (patchServer tallyKey) tallyKey 5 1019 [7] 1 (-1) (-1)).rcode = .ok ∧
      ((patchHost tallyKey).writeAlias 5 1019 [7]).1 = .ok := by
  have hagrees := alias_patch_agrees (patchServer tallyKey) tallyKey (patchHost tallyKey) 5 1019 [7] 1 (-1) (-1) rfl rfl
    (by decide) (by decide) ⟨by decide, by decide +kernel⟩
  have hok : (setAlias (patchServer tallyKey) tallyKey 5 1019 [7] 1 (-1) (-1)).rcode = .ok := by decide +kernel
  exact ⟨hok, hagrees.1.mp hok⟩

/-- A key whose first 8 bytes are zero. -/
def nobodyKey : Hash := ByteArr.ofList 32 (List.replicate 8 0 ++ [1])

/-- Its account may patch its alias over the wire; a program with that principal counts as one without. -/
theorem empty_principal_differs :
    getHashPrefix nobodyKey = ByteArr.zero 8 ∧
      (setAlias (patchServer nobodyKey) nobodyKey 5 1019 [7] 1 (-1) (-1)).rcode = .ok ∧
      ((patchHost nobodyKey).writeAlias 5 1019 [7]).1 = .notOwner := by
  decide +kernel

end Ces
