import Ces.Ledger.History

/-!
# Immutable assets

An asset whose immutable bit is set keeps its content and the bit. The writers of a content ask for the bit first,
and whoever packs the balance word again (days, owner-pays) copies it. An asset leaves its cell in the daily pass
only, which never puts another one there.
-/

namespace Ces

open Ces.Lib CesServer

/-- The asset under `key` is immutable and holds `content`. -/
def SealedAt (assets : FMap Hash Asset) (key : Hash) (content : AssetData) : Prop :=
  ∃ asset, assets.lookup key = some asset ∧ asset.content = content ∧ isAssetImmutable asset.balance = true

section

variable {assets : FMap Hash Asset} {key k : Hash} {content : AssetData}

/-- A writer keeps the content and the bit of an immutable asset. -/
theorem AssetWriter.May.keeps_seal {writer : AssetWriter} {old new : Asset} (h : writer.May old new)
    (hsealed : isAssetImmutable old.balance = true) :
    new.content = old.content ∧ isAssetImmutable new.balance = true := by
  cases writer with
  | owner origin =>
    obtain ⟨-, hopen, -⟩ := h
    rw [hsealed] at hopen
    cases hopen
  | seller origin =>
    obtain ⟨-, hcontent, hbalance⟩ := h
    exact ⟨hcontent, hbalance ▸ hsealed⟩
  | toggle origin =>
    obtain ⟨-, ownerPays, rfl⟩ := h
    exact ⟨rfl, (isAssetImmutable_assetBalance _ _ _ _ _).trans hsealed⟩
  | buyer origin =>
    obtain ⟨-, rfl⟩ := h
    exact ⟨rfl, hsealed⟩
  | days =>
    obtain ⟨days, rfl⟩ := h
    exact ⟨rfl, (isAssetImmutable_assetBalance _ _ _ _ _).trans hsealed⟩
  | program caller programOwner self =>
    obtain ⟨hauth, -⟩ := h
    unfold checkAssetWriteAuth at hauth
    rw [if_pos hsealed] at hauth
    cases hauth

theorem SealedAt.write {writer : AssetWriter} {old new : Asset} (h : SealedAt assets key content)
    (hold : assets.lookup k = some old) (hmay : writer.May old new) : SealedAt (assets.insert k new) key content := by
  obtain ⟨asset, hasset, hcontent, hsealed⟩ := h
  by_cases hkey : key = k
  · subst hkey
    rw [hold] at hasset
    cases hasset
    obtain ⟨hsame, hbit⟩ := hmay.keeps_seal hsealed
    exact ⟨new, Finmap.lookup_insert _, hsame.trans hcontent, hbit⟩
  · exact ⟨asset, (Finmap.lookup_insert_of_ne _ hkey).trans hasset, hcontent, hsealed⟩

/-- Outside the daily pass no touch breaks a seal. -/
theorem Touch.sealed_act {reg : Regime} (hday : reg.daily = false) (t : Touch) (c : Cells) (hcan : t.Can reg c)
    (h : SealedAt c.assets key content) : SealedAt (t.act c).assets key content := by
  cases t with
  | createAsset counted k asset =>
    obtain ⟨old, hold, hsealed⟩ := h
    have hne : key ≠ k := by
      rintro rfl
      rw [hcan.1] at hold
      cases hold
    exact ⟨old, (Finmap.lookup_insert_of_ne _ hne).trans hold, hsealed⟩
  | writeAsset writer k asset =>
    obtain ⟨old, hold, hmay⟩ := hcan
    exact h.write hold hmay
  | dropAsset k =>
    exact absurd (hday.symm.trans hcan.1) (by decide)
  | _ => exact h

/-! ### The daily walk -/

/-- The walk comes to the asset on its last prepaid day, and no owner pays for another one. -/
def Lapses (fee : UInt64) (st : Sweep × FMap Hash Asset) (key : Hash) : Prop :=
  ∃ asset, st.2.lookup key = some asset ∧ assetDays asset.balance ≤ 1 ∧
    (isAssetOwnerPays asset.balance = true → isAssetOwned asset.balance = false →
      ∀ acc, st.1.accounts.find asset.ownerId = some acc → acc.getBalance ≤ asInt64 fee)

/-- The asset walk of the daily pass, after some of the keys. -/
def CesServer.assetWalk (s : CesServer) (order : DailyOrder) (walked : List Hash) : Sweep × FMap Hash Asset :=
  walked.foldl (sweepAsset (s.discountFee .assetRent s.cfg.feeAsset))
    (.start (sweepAccounts s order).accounts, s.assets)

/-- The asset expires in a daily pass: still sealed when the walk comes to it, it lapses. -/
def CesServer.Expires (s : CesServer) (order : DailyOrder) (key : Hash) (content : AssetData) : Prop :=
  ∃ walked rest, order.assets = walked ++ key :: rest ∧ SealedAt (s.assetWalk order walked).2 key content ∧
    Lapses (s.discountFee .assetRent s.cfg.feeAsset) (s.assetWalk order walked) key

theorem Sweep.rent_eq_none {w : Sweep} {owner : HashPrefix} {fee : UInt64} (h : w.rent owner fee = none) {acc : Account}
    (hacc : w.accounts.find owner = some acc) : acc.getBalance ≤ asInt64 fee := by
  unfold Sweep.rent at h
  rw [hacc] at h
  dsimp only at h
  split_ifs at h with hpoor
  exact hpoor

/-- A turn of the walk keeps a sealed asset, or comes to it as it lapses and takes it out. -/
theorem sealed_sweepAsset (fee : UInt64) (st : Sweep × FMap Hash Asset) (k : Hash) (h : SealedAt st.2 key content) :
    SealedAt (sweepAsset fee st k).2 key content ∨
      (k = key ∧ Lapses fee st key ∧ (sweepAsset fee st k).2.lookup key = none) := by
  have hdays : ∀ asset days, st.2.lookup k = some asset →
      SealedAt (st.2.insert k { asset with balance := withDays asset.balance days }) key content := by
    intro asset days hasset
    have hmay : AssetWriter.days.May asset { asset with balance := withDays asset.balance days } := ⟨days, rfl⟩
    exact h.write hasset hmay
  have hdrop : (k = key → Lapses fee st key) → SealedAt (st.2.erase k) key content ∨
      (k = key ∧ Lapses fee st key ∧ (st.2.erase k).lookup key = none) := by
    intro hlapses
    by_cases hkey : k = key
    · exact .inr ⟨hkey, hlapses hkey, hkey ▸ Finmap.lookup_erase _ _⟩
    · left
      unfold SealedAt
      rw [Finmap.lookup_erase_ne (Ne.symm hkey)]
      exact h
  unfold sweepAsset
  cases hasset : st.2.lookup k with
  | none => exact .inl h
  | some asset =>
    dsimp only
    split_ifs with hfloor hpays
    · cases hrent : st.1.rent asset.ownerId fee with
      | none =>
        refine hdrop fun hkey => ⟨asset, hkey ▸ hasset, hfloor, fun _ _ acc hacc => ?_⟩
        exact Sweep.rent_eq_none hrent hacc
      | some w => exact .inl (hdays asset 0 hasset)
    · refine hdrop fun hkey => ⟨asset, hkey ▸ hasset, hfloor, fun howner howned => absurd ?_ hpays⟩
      rw [howner, howned]
      rfl
    · exact .inl (hdays asset _ hasset)

/-- The walk puts no asset where there is none. -/
theorem lookup_sweepAsset_of_none (fee : UInt64) (st : Sweep × FMap Hash Asset) (k : Hash)
    (h : st.2.lookup key = none) : (sweepAsset fee st k).2.lookup key = none := by
  have hne : ∀ asset, st.2.lookup k = some asset → key ≠ k := by
    rintro asset hasset rfl
    rw [h] at hasset
    cases hasset
  have hdrop : (st.2.erase k).lookup key = none := by
    by_cases hkey : key = k
    · subst hkey
      exact Finmap.lookup_erase _ _
    · rw [Finmap.lookup_erase_ne hkey]
      exact h
  unfold sweepAsset
  cases hasset : st.2.lookup k with
  | none => exact h
  | some asset =>
    have hdays : ∀ new, (st.2.insert k new).lookup key = none := fun new =>
      (Finmap.lookup_insert_of_ne _ (hne asset hasset)).trans h
    dsimp only
    split_ifs
    · cases st.1.rent asset.ownerId fee with
      | none => exact hdrop
      | some w => exact hdays _
    · exact hdrop
    · exact hdays _

/-- Over the whole walk: the keys walked before the one that takes the asset out leave it sealed. -/
theorem sealed_foldl_sweepAsset (fee : UInt64) (keys : List Hash) (st : Sweep × FMap Hash Asset)
    (h : SealedAt st.2 key content) :
    SealedAt (keys.foldl (sweepAsset fee) st).2 key content ∨
      (keys.foldl (sweepAsset fee) st).2.lookup key = none ∧
        ∃ walked rest, keys = walked ++ key :: rest ∧ SealedAt (walked.foldl (sweepAsset fee) st).2 key content ∧
          Lapses fee (walked.foldl (sweepAsset fee) st) key := by
  induction keys generalizing st with
  | nil => exact .inl h
  | cons k keys ih =>
    rcases sealed_sweepAsset fee st k h with hkept | ⟨rfl, hlapses, hgone⟩
    · rcases ih _ hkept with hend | ⟨hgone, walked, rest, rfl, hsealed, hlapses⟩
      · exact .inl hend
      · exact .inr ⟨hgone, k :: walked, rest, rfl, hsealed, hlapses⟩
    · refine .inr ⟨?_, [], keys, rfl, h, hlapses⟩
      exact List.foldlRecOn (motive := fun st : Sweep × FMap Hash Asset => st.2.lookup k = none) keys _ hgone
        fun st hst k' _ => lookup_sweepAsset_of_none fee st k' hst

theorem sealed_dailyTaskTick (s : CesServer) (order : DailyOrder) (h : SealedAt s.assets key content) :
    SealedAt (dailyTaskTick s order).assets key content ∨
      (dailyTaskTick s order).assets.lookup key = none ∧ s.Expires order key content :=
  sealed_foldl_sweepAsset _ order.assets (.start (sweepAccounts s order).accounts, s.assets) h

variable {exec : CesServer → VmRunRequest → VmProgram} {s : CesServer}

/-- An operation keeps a seal, unless it is the daily pass and the asset expires. -/
theorem ServerOp.sealed_apply (op : ServerOp) (h : SealedAt s.assets key content) :
    SealedAt (op.apply exec s).assets key content ∨
      ∃ order, op = .ledger (.daily order) ∧ (op.apply exec s).assets.lookup key = none ∧
        s.Expires order key content := by
  by_cases hday : (op.regime s).daily = false
  · exact .inl (Runs.keeps (I := fun c : Cells => SealedAt c.assets key content) (Touch.sealed_act hday)
      (op.touched_apply s) h)
  · cases op with
    | ledger lop =>
      cases lop with
      | daily order =>
        rcases sealed_dailyTaskTick s order h with hsealed | ⟨hgone, hexpires⟩
        · exact .inl hsealed
        · exact .inr ⟨order, rfl, hgone, hexpires⟩
      | _ => exact absurd rfl hday
    | _ => exact absurd rfl hday

/-- Once the immutable bit is set, the content stays and the bit stays, until the asset expires in a daily pass: on its
last prepaid day, with no owner who pays for another one. -/
theorem immutable_until_expiry (exec : CesServer → VmRunRequest → VmProgram) (s : CesServer) (ops : List ServerOp)
    (key : Hash) (asset : Asset) (hthere : s.assets.lookup key = some asset)
    (hsealed : isAssetImmutable asset.balance = true) :
    SealedAt (runServer exec s ops).assets key asset.content ∨
      ∃ before order after, ops = before ++ .ledger (.daily order) :: after ∧
        SealedAt (runServer exec s before).assets key asset.content ∧
        (runServer exec s before).Expires order key asset.content ∧
        (runServer exec s (before ++ [.ledger (.daily order)])).assets.lookup key = none := by
  have hstart : SealedAt s.assets key asset.content := ⟨asset, hthere, rfl, hsealed⟩
  clear hthere hsealed
  induction ops generalizing s with
  | nil => exact .inl hstart
  | cons op ops ih =>
    have hop : SealedAt (op.apply exec s).assets key asset.content ∨ _ := op.sealed_apply hstart
    rcases hop with hkept | ⟨order, rfl, hgone, hexpires⟩
    · rcases ih _ hkept with hend | ⟨before, order, after, rfl, hbefore, hexpires, hgone⟩
      · exact .inl hend
      · exact .inr ⟨op :: before, order, after, rfl, hbefore, hexpires, hgone⟩
    · exact .inr ⟨[], order, ops, rfl, hstart, hexpires, hgone⟩

end

/-! ### A sealed asset that expires -/

def sealKey : Hash := ByteArr.ofList 32 [1]

/-- One immutable asset with two days left. -/
def sealServer : CesServer :=
  .load .stock (ByteArr.zero 32) ∅
    ((∅ : FMap Hash Asset).insert sealKey
      ⟨ByteArr.zero 8, ByteArr.zero 210, assetBalance 2 false false true false, 0⟩) ∅

def sealDaily : ServerOp := .ledger (.daily ⟨[], [sealKey], [], [], []⟩)

/-- The first day leaves the asset sealed, the second removes it. -/
theorem immutable_until_expiry_two_days :
    let exec : CesServer → VmRunRequest → VmProgram := fun _ _ => .done ⟨.ok, 0, []⟩
    SealedAt (runServer exec sealServer [sealDaily]).assets sealKey (ByteArr.zero 210) ∧
      (runServer exec sealServer [sealDaily, sealDaily]).assets.lookup sealKey = none ∧
      (SealedAt (runServer exec sealServer [sealDaily, sealDaily]).assets sealKey (ByteArr.zero 210) ∨
        ∃ before order after, [sealDaily, sealDaily] = before ++ .ledger (.daily order) :: after ∧
          SealedAt (runServer exec sealServer before).assets sealKey (ByteArr.zero 210) ∧
          (runServer exec sealServer before).Expires order sealKey (ByteArr.zero 210) ∧
          (runServer exec sealServer (before ++ [.ledger (.daily order)])).assets.lookup sealKey = none) := by
  intro exec
  refine ⟨⟨⟨ByteArr.zero 8, ByteArr.zero 210, assetBalance 1 false false true false, 0⟩, ?_, rfl, ?_⟩, ?_, ?_⟩
  · decide +kernel
  · decide
  · decide +kernel
  · exact immutable_until_expiry exec sealServer [sealDaily, sealDaily] sealKey
      ⟨ByteArr.zero 8, ByteArr.zero 210, assetBalance 2 false false true false, 0⟩ (by decide +kernel) (by decide)

end Ces
