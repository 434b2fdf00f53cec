import Ces.Ledger.History

/-!
# Assets that are not for sale

Anyone may pay for the days of an asset, and buy it when it has a price. Its owner, content and price are otherwise its
owner's business.
-/

namespace Ces

open Ces.Lib CesServer

/-- What an owner has in an asset. -/
def Asset.title (a : Asset) : HashPrefix × AssetData × UInt32 := (a.ownerId, a.content, a.price)

/-- The asset under `key` is to its owner what `asset` was. -/
def HeldAt (c : Cells) (key : Hash) (asset : Asset) : Prop := (c.assets.lookup key).map Asset.title = some asset.title

/-- The writes that may end it: one the owner asks for, one of a program that may write the asset, and the expiry. -/
def Touch.Releases (key : Hash) (owner : HashPrefix) (t : Touch) (c : Cells) : Prop :=
  ∃ now, c.assets.lookup key = some now ∧
    match t with
    | .writeAsset (.owner origin) k _ => k = key ∧ origin = owner
    | .writeAsset (.seller origin) k _ => k = key ∧ origin = owner
    | .writeAsset (.program caller programOwner self) k _ =>
      k = key ∧ checkAssetWriteAuth now caller programOwner self = .ok
    | .dropAsset k => k = key ∧ assetDays now.balance ≤ 1
    | _ => False

/-- A touch keeps an asset without a price, or is one of the writes that may end it. -/
theorem Touch.held_act {reg : Regime} {key : Hash} {asset : Asset} (hprice : asset.price = 0) (t : Touch) (c : Cells)
    (hcan : t.Can reg c) (h : HeldAt c key asset) : HeldAt (t.act c) key asset ∨ t.Releases key asset.ownerId c := by
  obtain ⟨now, hnow, htitle⟩ := Option.map_eq_some_iff.mp h
  have hinsert : ∀ k new, k ≠ key ∨ new.title = now.title →
    HeldAt { c with assets := c.assets.insert k new } key asset := by
    intro k new hnew
    unfold HeldAt
    rw [FMap.lookup_insert_eq]
    grind [HeldAt]
  cases t with
  | createAsset counted k new =>
    refine .inl (hinsert k new (.inl ?_))
    rintro rfl
    exact absurd (hnow.symm.trans hcan.1) nofun
  | dropAsset k =>
    by_cases hkey : k = key
    · obtain ⟨old, hold, hdays⟩ := hcan.2
      exact .inr ⟨old, hkey ▸ hold, hkey, hdays⟩
    · left
      unfold HeldAt
      rwa [show (act (.dropAsset k) c).assets.lookup key = c.assets.lookup key from
        Finmap.lookup_erase_ne (Ne.symm hkey)]
  | writeAsset writer k new =>
    obtain ⟨old, hold, hmay⟩ := hcan
    by_cases hkey : k = key
    · subst hkey
      obtain rfl := Option.some.inj (hnow.symm.trans hold)
      have howner : now.ownerId = asset.ownerId := congrArg Prod.fst htitle
      cases writer with
      | owner origin => exact .inr ⟨now, hnow, rfl, hmay.1.symm.trans howner⟩
      | seller origin => exact .inr ⟨now, hnow, rfl, hmay.1.symm.trans howner⟩
      | buyer origin => exact absurd hprice ((congrArg (·.2.2) htitle : now.price = asset.price) ▸ hmay.1)
      | program caller programOwner self => exact .inr ⟨now, hnow, rfl, hmay.1⟩
      | toggle origin =>
        obtain ⟨-, ownerPays, rfl⟩ := hmay
        exact .inl (hinsert k _ (.inr rfl))
      | days =>
        obtain ⟨days, rfl⟩ := hmay
        exact .inl (hinsert k _ (.inr rfl))
    · exact .inl (hinsert k new (.inl hkey))
  | _ => exact .inl h

/-- The asset is held through a history, or up to a write that may end it. -/
def HeldThrough (exec : CesServer → VmRunRequest → VmProgram) (s : CesServer) (ops : List ServerOp) (key : Hash)
    (asset : Asset) : Prop :=
  HeldAt (runServer exec s ops).cells key asset ∨
    ∃ before t after c, touchesOf exec s ops = before ++ t :: after ∧ Touched s.regime.anyDay s.cells before c ∧
      HeldAt c key asset ∧ t.Releases key asset.ownerId c

/-- Through every history of a running server an asset without a price keeps its owner, its content and its price, up to
a write of its owner, of a program that may write it, or its expiry. What a boot installs and runs is not part of a
history. -/
theorem unlisted_asset_held (exec : CesServer → VmRunRequest → VmProgram) (s : CesServer) (ops : List ServerOp)
    (key : Hash) (asset : Asset) (hthere : s.assets.lookup key = some asset) (hprice : asset.price = 0) :
    HeldThrough exec s ops key asset := by
  unfold HeldThrough
  exact (touched_history exec s ops).keeps_until (fun t c hcan _ => t.held_act hprice c hcan)
    (Meets.of_forall (p := fun _ => True) _ fun _ _ => trivial) (congrArg (Option.map Asset.title) hthere)

/-- An asset with two days left, through a day. -/
theorem unlisted_asset_held_a_day :
    let asset : Asset := ⟨programOwner, ByteArr.ofList 210 depositCode, 2, 0⟩
    HeldThrough bytecode (.load .stock (ByteArr.zero 32) ∅ ((∅ : FMap Hash Asset).insert tallyKey asset) ∅)
      [.ledger (.daily ⟨[], [tallyKey], [], [], []⟩)] tallyKey asset :=
  unlisted_asset_held _ _ _ _ _ (Finmap.lookup_insert _) rfl

end Ces
