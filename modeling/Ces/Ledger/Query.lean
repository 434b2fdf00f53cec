import Ces.Ledger.Authority

/-!
# Asset queries

`queryAsset` pages through the store from an asset on, in the order of the hash map, and skips the private assets of
others; its unsigned sibling shows every asset, but of a private one the metadata only. `serveAll` answers a sequence of
both kinds. Two ledgers that differ only in the content of one private asset answer every such sequence alike, unless
its owner asks (`private_content_hidden`): each request is answered alike and leaves two ledgers of that kind.

The order of the map is a parameter: it depends on the keys, not on the values, and no query changes either.
-/

namespace Ces

open Ces.Lib CesServer

/-! ### The signed query -/

structure AssetEntry where
  ownerId : HashPrefix
  content : AssetData
  balance : UInt16
  price : UInt32
  deriving DecidableEq

/-- The entry of an asset holds the raw balance, flags included. -/
def Asset.entry (asset : Asset) : AssetEntry := ⟨asset.ownerId, asset.content, asset.balance, asset.price⟩

/-- A private asset that `requester` does not own. -/
def Asset.hiddenFrom (asset : Asset) (requester : HashPrefix) : Bool :=
  isAssetPrivate asset.balance && asset.ownerId != requester

def CesQueryAsset.maxItems : Nat := 4

structure QueryAssetResult where
  rcode : Rc
  outResults : List AssetEntry
  server : CesServer

namespace CesServer

/-- The loop of `queryAsset`: up to `count` entries that `requester` may see. -/
def pageAssets (s : CesServer) (requester : HashPrefix) : Nat → List Hash → List AssetEntry
  | 0, _ => []
  | _ + 1, [] => []
  | count + 1, key :: rest =>
    match s.assets.lookup key with
    | none => s.pageAssets requester (count + 1) rest
    | some asset =>
      if asset.hiddenFrom requester then s.pageAssets requester (count + 1) rest
      else asset.entry :: s.pageAssets requester count rest

/-- The asset a query starts from: the first of the store when no key is given. -/
def queryTarget (s : CesServer) (order : List Hash) (assetId : Hash) : Option (Hash × Asset) :=
  (if assetId = ByteArr.zero 32 then order.head? else some assetId).bind fun key =>
    (s.assets.lookup key).map fun asset => (key, asset)

/-- The fee of a query for `items` more than one. -/
def assetQueryFee (s : CesServer) (queryFee : Int) (items : UInt8) : Int :=
  let fee := s.discountedFlatFee queryFee s.cfg.feeQuery .query
  if 0 < items then fee + fee * (items.toNat + 1) / CesQueryAsset.maxItems else fee

/-- `none` where the source throws. -/
def queryAsset (s : CesServer) (order : List Hash) (originKey assetId : Hash) (items : UInt8) (providedNonce : UInt32)
    (queryFee errFee : Int) : Option QueryAssetResult :=
  if CesQueryAsset.maxItems ≤ items.toNat then none
  else
    let fee := asUInt64 (s.assetQueryFee queryFee items)
    let requester := getHashPrefix originKey
    some <| s.spendOr requester 0 fee providedNonce (s.errorFee errFee) (fun rc t => ⟨rc, [], t⟩) <|
      match s.queryTarget order assetId with
      | none => ⟨.assetNotFound, [], s.chargeError requester (s.errorFee errFee)⟩
      | some (key, asset) =>
        if asset.hiddenFrom requester then ⟨.assetNotFound, [], s.chargeError requester (s.errorFee errFee)⟩
        else
          ⟨.ok, s.pageAssets requester (items.toNat + 1) (order.dropWhile fun k => k ≠ key), s.debit requester fee⟩

/-! ### The unsigned query -/

/-- Owner, content, days and price; all zero for an asset that is not there. -/
def unsignedQueryAsset (s : CesServer) (assetId : Hash) : HashPrefix × AssetData × UInt16 × UInt32 :=
  match s.assets.lookup assetId with
  | none => (ByteArr.zero 8, ByteArr.zero _, 0, 0)
  | some asset => (asset.ownerId, asset.content, assetDays asset.balance, asset.price)

end CesServer

/-! ### Requests and replies -/

inductive AssetQuery where
  | signed (key : Hash) (p : SignedPacket) (assetId : Hash) (items : UInt8)
  | unsigned (assetId : Hash)

/-- Whose signature a query bears. -/
def AssetQuery.requester : AssetQuery → Option Hash
  | .signed key _ _ _ => some key
  | .unsigned _ => none

inductive AssetReply where
  | signed (originId : HashPrefix) (reqNonce : UInt32) (items : UInt8) (rcode : Rc) (assets : List AssetEntry)
  | unsigned (assetId : Hash) (ownerId : HashPrefix) (content : AssetData) (balance : UInt16) (price : UInt32)

/-- The handler of `CES_QUERY_ASSET`. -/
def CesServer.answerQueryAsset (s : CesServer) (order : List Hash) (key assetId : Hash) (items : UInt8)
    (reqNonce : UInt32) : Option AssetReply × CesServer :=
  match s.queryAsset order key assetId items reqNonce (-1) (-1) with
  | none => (none, s)
  | some r =>
    if r.rcode = .ok then
      (some (.signed (getHashPrefix key) reqNonce (UInt8.ofNat (r.outResults.length - 1)) .ok r.outResults), r.server)
    else (some (.signed (getHashPrefix key) reqNonce items r.rcode []), r.server)

/-- The handler of `CES_UNSIGNED_QUERY_ASSET`. -/
def CesServer.answerUnsignedQueryAsset (s : CesServer) (assetId : Hash) : AssetReply :=
  let r := s.unsignedQueryAsset assetId
  let hidden := (s.assets.lookup assetId).any fun asset => isAssetPrivate asset.balance
  .unsigned assetId r.1 (if hidden then ByteArr.zero _ else r.2.1) r.2.2.1 r.2.2.2

/-- `dispatchSigned` for a handler that replies. -/
def CesServer.dispatchReply {β : Type} (s : CesServer) (key : Hash) (p : SignedPacket)
    (handler : CesServer → Option β × CesServer) : Option β × CesServer :=
  if !s.verifySignature key p.message p.sig then (none, s)
  else if p.reqNonce = Accounts.nonceless ∧ !p.noncelessOk then (none, s)
  else if p.serverId ≠ getHashPrefix s.serverKey then (none, s)
  else
    let t := { s with presence := s.presence.insert (getHashPrefix key) p.addr }
    match t.accounts.find (getHashPrefix key) with
    | none => (none, t)
    | some acc => if acc.getKey (getHashPrefix key) ≠ key then (none, t) else handler t

def AssetQuery.serve (order : List Hash) (s : CesServer) : AssetQuery → Option AssetReply × CesServer
  | .signed key p assetId items =>
    s.dispatchReply key { p with noncelessOk := false } fun t => t.answerQueryAsset order key assetId items p.reqNonce
  | .unsigned assetId => (some (s.answerUnsignedQueryAsset assetId), s)

/-- The replies to a sequence of queries, each with the account store it leaves. -/
def serveAll (order : List Hash) : CesServer → List AssetQuery → List (Option AssetReply × Accounts)
  | _, [] => []
  | s, q :: rest =>
    let r := q.serve order s
    (r.1, r.2.accounts) :: serveAll order r.2 rest

/-! ### Two ledgers -/

/-- The ledgers differ at most in the content of the private asset `key`, which `owner` owns. -/
structure SameButContent (key : Hash) (owner : HashPrefix) (s t : CesServer) : Prop where
  rest : t = { s with assets := t.assets }
  there : ∃ asset content, s.assets.lookup key = some asset ∧ isAssetPrivate asset.balance = true ∧
    asset.ownerId = owner ∧ t.assets.lookup key = some { asset with content := content }
  other : ∀ k, k ≠ key → t.assets.lookup k = s.assets.lookup k

namespace SameButContent

variable {key : Hash} {owner requester : HashPrefix} {s t : CesServer}

/-- What the two ledgers hold at one key. -/
theorem lookup_cases (h : SameButContent key owner s t) (k : Hash) :
    t.assets.lookup k = s.assets.lookup k ∨
    ∃ asset content, s.assets.lookup k = some asset ∧ t.assets.lookup k = some { asset with content := content } ∧
      isAssetPrivate asset.balance = true ∧ asset.ownerId = owner := by
  by_cases hk : k = key
  · obtain ⟨asset, content, hs, hpriv, howner, ht⟩ := h.there
    exact .inr ⟨asset, content, hk ▸ hs, hk ▸ ht, hpriv, howner⟩
  · exact .inl (h.other k hk)

theorem hiddenFrom_of_private {asset : Asset} (hpriv : isAssetPrivate asset.balance = true)
    (howner : asset.ownerId = owner) (hne : requester ≠ owner) : asset.hiddenFrom requester = true := by
  unfold Asset.hiddenFrom
  rw [hpriv, howner, Bool.true_and, bne_iff_ne]
  exact hne.symm

/-- The loop meets the hidden asset on both sides and skips it. -/
theorem pageAssets_eq (h : SameButContent key owner s t) (hne : requester ≠ owner) (count : Nat) (order : List Hash) :
    t.pageAssets requester count order = s.pageAssets requester count order := by
  induction order generalizing count with
  | nil => cases count <;> rfl
  | cons k rest ih =>
    cases count with
    | zero => rfl
    | succ count =>
      unfold pageAssets
      rcases h.lookup_cases k with heq | ⟨asset, content, hs, ht, hpriv, howner⟩
      · rw [heq, ih, ih]
      · have hhidden := hiddenFrom_of_private hpriv howner hne
        have hhidden' : Asset.hiddenFrom { asset with content := content } requester = true := hhidden
        rw [hs, ht]
        dsimp only
        rw [if_pos hhidden, if_pos hhidden', ih]

theorem accounts_eq (h : SameButContent key owner s t) : t.accounts = s.accounts := by
  rw [h.rest]

theorem errorFee_eq (h : SameButContent key owner s t) (errFee : Int) : t.errorFee errFee = s.errorFee errFee := by
  rw [h.rest]
  rfl

theorem with_accounts (h : SameButContent key owner s t) (accounts : Accounts) :
    SameButContent key owner { s with accounts := accounts } { t with accounts := accounts } := by
  refine ⟨?_, h.there, h.other⟩
  rw [h.rest]

theorem chargeError (h : SameButContent key owner s t) (id : HashPrefix) (errFee : Int) :
    SameButContent key owner (s.chargeError id errFee) (t.chargeError id errFee) := by
  unfold CesServer.chargeError
  rw [h.accounts_eq]
  exact h.with_accounts _

theorem debit (h : SameButContent key owner s t) (id : HashPrefix) (total : UInt64) :
    SameButContent key owner (s.debit id total) (t.debit id total) := by
  unfold CesServer.debit
  rw [h.accounts_eq]
  exact h.with_accounts _

theorem spendOr {β : Type} {R : β → β → Prop} (h : SameButContent key owner s t) (origin : HashPrefix)
    (amount fee : UInt64) (reqNonce : UInt32) (errFee : Int) {fail : Rc → CesServer → β} {next next' : β}
    (hfail : ∀ rc s' t', SameButContent key owner s' t' → R (fail rc s') (fail rc t')) (hnext : R next next') :
    R (s.spendOr origin amount fee reqNonce errFee fail next) (t.spendOr origin amount fee reqNonce
      errFee fail next') := by
  unfold CesServer.spendOr
  rw [h.accounts_eq]
  cases s.accounts.validateSpend origin amount fee reqNonce errFee with
  | mk rc accounts =>
    cases rc with
    | ok => exact hnext
    | _ => exact hfail _ _ _ (h.with_accounts accounts)

/-- The two answers of a signed query. -/
structure SameResult (key : Hash) (owner : HashPrefix) (r r' : QueryAssetResult) : Prop where
  rcode : r'.rcode = r.rcode
  outResults : r'.outResults = r.outResults
  server : SameButContent key owner r.server r'.server

/-- The start of the query: nothing on both sides, the same asset, or the hidden one. -/
theorem queryTarget_cases (h : SameButContent key owner s t) (order : List Hash) (assetId : Hash) :
    t.queryTarget order assetId = s.queryTarget order assetId ∨
    ∃ k asset content, s.queryTarget order assetId = some (k, asset) ∧
      t.queryTarget order assetId = some (k, { asset with content := content }) ∧
      isAssetPrivate asset.balance = true ∧ asset.ownerId = owner := by
  unfold queryTarget
  cases (if assetId = ByteArr.zero 32 then order.head? else some assetId) with
  | none => exact .inl rfl
  | some k =>
    rcases h.lookup_cases k with heq | ⟨asset, content, hs, ht, hpriv, howner⟩
    · exact .inl (by rw [Option.bind_some, Option.bind_some, heq])
    · exact .inr ⟨k, asset, content,
        by rw [Option.bind_some, hs]; rfl, by rw [Option.bind_some, ht]; rfl, hpriv, howner⟩

theorem queryAsset (h : SameButContent key owner s t) {originKey : Hash} (hne : getHashPrefix originKey ≠ owner)
    (order : List Hash) (assetId : Hash) (items : UInt8) (providedNonce : UInt32) (queryFee errFee : Int) :
    Option.Rel (SameResult key owner) (s.queryAsset order originKey assetId items providedNonce queryFee errFee)
      (t.queryAsset order originKey assetId items providedNonce queryFee errFee) := by
  have hfee : t.assetQueryFee queryFee items = s.assetQueryFee queryFee items := by
    rw [h.rest]
    rfl
  unfold CesServer.queryAsset
  by_cases hitems : CesQueryAsset.maxItems ≤ items.toNat
  · rw [if_pos hitems, if_pos hitems]
    exact .none
  rw [if_neg hitems, if_neg hitems, hfee, h.errorFee_eq]
  refine .some (h.spendOr _ _ _ _ _ (fun rc s' t' h' => ⟨rfl, rfl, h'⟩) ?_)
  have hcharged : SameResult key owner ⟨.assetNotFound, [], s.chargeError (getHashPrefix originKey) (s.errorFee errFee)⟩
      ⟨.assetNotFound, [], t.chargeError (getHashPrefix originKey) (s.errorFee errFee)⟩ :=
    ⟨rfl, rfl, h.chargeError _ _⟩
  rcases h.queryTarget_cases order assetId with heq | ⟨k, asset, content, hs, ht, hpriv, howner⟩
  · rw [heq]
    cases s.queryTarget order assetId with
    | none => exact hcharged
    | some target =>
      dsimp only
      split_ifs
      · exact hcharged
      · exact ⟨rfl, h.pageAssets_eq hne _ _, h.debit _ _⟩
  · have hhidden := hiddenFrom_of_private hpriv howner hne
    have hhidden' : Asset.hiddenFrom { asset with content := content } (getHashPrefix originKey) = true := hhidden
    rw [hs, ht]
    dsimp only
    rw [if_pos hhidden, if_pos hhidden']
    exact hcharged

theorem answerQueryAsset (h : SameButContent key owner s t) {originKey : Hash} (hne : getHashPrefix originKey ≠ owner)
    (order : List Hash) (assetId : Hash) (items : UInt8) (reqNonce : UInt32) :
    (t.answerQueryAsset order originKey assetId items reqNonce).1 =
        (s.answerQueryAsset order originKey assetId items reqNonce).1 ∧
      SameButContent key owner (s.answerQueryAsset order originKey assetId items reqNonce).2
        (t.answerQueryAsset order originKey assetId items reqNonce).2 := by
  have hresult := h.queryAsset hne order assetId items reqNonce (-1) (-1)
  unfold CesServer.answerQueryAsset
  cases hs : s.queryAsset order originKey assetId items reqNonce (-1) (-1) with
  | none =>
    rw [hs] at hresult
    cases ht : t.queryAsset order originKey assetId items reqNonce (-1) (-1) with
    | none => exact ⟨rfl, h⟩
    | some r' =>
      rw [ht] at hresult
      cases hresult
  | some r =>
    rw [hs] at hresult
    cases ht : t.queryAsset order originKey assetId items reqNonce (-1) (-1) with
    | none =>
      rw [ht] at hresult
      cases hresult
    | some r' =>
      rw [ht] at hresult
      cases hresult with
      | some hsame =>
        dsimp only
        rw [hsame.rcode, hsame.outResults]
        split_ifs
        · exact ⟨rfl, hsame.server⟩
        · exact ⟨rfl, hsame.server⟩

theorem answerUnsignedQueryAsset (h : SameButContent key owner s t) (assetId : Hash) :
    t.answerUnsignedQueryAsset assetId = s.answerUnsignedQueryAsset assetId := by
  unfold CesServer.answerUnsignedQueryAsset unsignedQueryAsset
  rcases h.lookup_cases assetId with heq | ⟨asset, content, hs, ht, hpriv, -⟩
  · rw [heq]
  · rw [hs, ht]
    dsimp only [Option.any]
    rw [hpriv]
    rfl

theorem dispatchReply {β : Type} (h : SameButContent key owner s t) (sender : Hash) (p : SignedPacket)
    {handler : CesServer → Option β × CesServer}
    (hhandler : ∀ s' t', SameButContent key owner s' t' →
      (handler t').1 = (handler s').1 ∧ SameButContent key owner (handler s').2 (handler t').2) :
    (t.dispatchReply sender p handler).1 = (s.dispatchReply sender p handler).1 ∧
      SameButContent key owner (s.dispatchReply sender p handler).2 (t.dispatchReply sender p handler).2 := by
  obtain ⟨assets, rfl⟩ : ∃ assets, t = { s with assets := assets } := ⟨t.assets, h.rest⟩
  have hnoted : SameButContent key owner { s with presence := s.presence.insert (getHashPrefix sender) p.addr }
      { s with assets := assets, presence := s.presence.insert (getHashPrefix sender) p.addr } :=
    ⟨rfl, h.there, h.other⟩
  unfold CesServer.dispatchReply
  dsimp only
  split_ifs
  · exact ⟨rfl, h⟩
  · exact ⟨rfl, h⟩
  · exact ⟨rfl, h⟩
  · cases s.accounts.find (getHashPrefix sender) with
    | none => exact ⟨rfl, hnoted⟩
    | some acc =>
      dsimp only
      split_ifs
      · exact ⟨rfl, hnoted⟩
      · exact hhandler _ _ hnoted

/-- The step: one query of someone other than the owner. -/
theorem serve (h : SameButContent key owner s t) (order : List Hash) {q : AssetQuery}
    (hne : ∀ sender, q.requester = some sender → getHashPrefix sender ≠ owner) :
    (q.serve order t).1 = (q.serve order s).1 ∧ SameButContent key owner (q.serve order s).2 (q.serve order t).2 := by
  cases q with
  | signed sender p assetId items =>
    exact h.dispatchReply sender _ fun s' t' h' => h'.answerQueryAsset (hne sender rfl) order assetId items p.reqNonce
  | unsigned assetId => exact ⟨congrArg some (h.answerUnsignedQueryAsset assetId), h⟩

end SameButContent

/-- Nobody but its owner learns anything of the content of a private asset by queries, nor pays otherwise for it. -/
theorem private_content_hidden (order : List Hash) (key : Hash) (owner : HashPrefix) (s t : CesServer)
    (h : SameButContent key owner s t) (qs : List AssetQuery)
    (hne : ∀ q ∈ qs, ∀ sender, q.requester = some sender → getHashPrefix sender ≠ owner) :
    serveAll order t qs = serveAll order s qs := by
  induction qs generalizing s t with
  | nil => rfl
  | cons q rest ih =>
    obtain ⟨hreply, hnext⟩ := h.serve order (hne q (List.mem_cons_self ..))
    have htail := ih _ _ hnext fun q' hq' => hne q' (List.mem_cons_of_mem q hq')
    unfold serveAll
    dsimp only
    rw [hreply, hnext.accounts_eq, htail]

/-! ### An asset of someone else -/

def askerKey : Hash := ByteArr.ofList 32 (List.replicate 32 31)
def secretKey : Hash := ByteArr.ofList 32 (List.replicate 32 32)
def secretOwner : HashPrefix := ByteArr.ofList 8 (List.replicate 8 33)

/-- One account, and a private asset of another owner with the given content. -/
def secretServer (content : AssetData) : CesServer :=
  { CesServer.load .stock (ByteArr.zero 32)
      ((∅ : FMap HashPrefix Account).insert (getHashPrefix askerKey) (.ofKey askerKey 1000000 0))
      ((∅ : FMap Hash Asset).insert secretKey ⟨secretOwner, content, 0x8005, 7⟩) ∅ with
    verifySignature := fun _ _ _ => true }

def askSecret : AssetQuery :=
  .signed askerKey ⟨getHashPrefix (ByteArr.zero 32), 1, false, [], [], []⟩ secretKey 2

theorem private_content_hidden_secret :
    serveAll [secretKey] (secretServer (ByteArr.ofList 210 [1])) [askSecret, .unsigned secretKey] =
      serveAll [secretKey] (secretServer (ByteArr.ofList 210 [2])) [askSecret, .unsigned secretKey] := by
  refine private_content_hidden [secretKey] secretKey secretOwner _ _ ⟨rfl, ?_, ?_⟩ _ ?_
  · exact ⟨⟨secretOwner, ByteArr.ofList 210 [2], 0x8005, 7⟩, ByteArr.ofList 210 [1], by decide +kernel, by decide, rfl,
      by decide +kernel⟩
  · intro k hk
    exact (Finmap.lookup_insert_of_ne _ hk).trans (Finmap.lookup_insert_of_ne _ hk).symm
  · intro q hq sender hsender
    rcases List.mem_pair.mp hq with rfl | rfl
    · cases hsender
      decide
    · cases hsender

end Ces
