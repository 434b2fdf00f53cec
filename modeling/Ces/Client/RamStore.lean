import Ces.Client.Ramfile
import Ces.Ledger.Cells

/-!
# Writing files in RAM

The writers of `ramfilestore.cpp`. `RamClient` is the assets the server keeps, with the number of requests made and
of chunk keys drawn. `RamWorld` says what becomes of the requests on their way, and which keys are drawn. A request
that fails changes no asset here.

`FileAt` is a file as it lies in the store: a readable head, and a chain of readable chunks that ends and holds the
declared size. `ramfilePut` builds one. `ramfileWrite` and `ramfileResize` keep it and change the stored bytes as
`splice` and `padTo` do; what a reader sees of them is the part below the declared size.
-/

namespace Ces

open Ces.Lib

/-! ### Requests -/

/-- The content of an asset that everybody may read. -/
def readable (assets : FMap Hash Asset) (key : Hash) : Option AssetData :=
  (assets.lookup key).bind fun asset => if isAssetPrivate asset.balance then none else some asset.content

/-- The unsigned query: zeros for an asset that is private or not there. -/
def queryAsset (assets : FMap Hash Asset) (key : Hash) : Except Rc AssetData :=
  .ok ((readable assets key).getD (ByteArr.zero 210))

structure RamClient where
  assets : FMap Hash Asset
  requests : Nat
  draws : Nat

/-- A call of the client; what it did stays done when it fails. -/
abbrev RamM := EStateM Rc RamClient

/-- The call succeeds. -/
def Yields {α : Type} (x : RamM α) (c : RamClient) (a : α) (c' : RamClient) : Prop := x.run c = .ok a c'

/-- The outcome of a call as a value. -/
def attempt {α : Type} (x : RamM α) : RamM (Except Rc α) := fun c =>
  match x.run c with
  | .ok a c' => .ok (.ok a) c'
  | .error rc c' => .ok (.error rc) c'

section monad

variable {α β : Type} {c c' : RamClient}

theorem yields_bind {x : RamM α} {f : α → RamM β} {b : β} :
    Yields (x >>= f) c b c' ↔ ∃ a c₁, Yields x c a c₁ ∧ Yields (f a) c₁ b c' := by
  simp only [Yields, EStateM.run, bind, EStateM.bind]
  cases x c <;> simp

@[simp] theorem yields_pure {a b : α} : Yields (pure a : RamM α) c b c' ↔ a = b ∧ c = c' := by
  simp [Yields]

@[simp] theorem not_yields_throw {rc : Rc} {a : α} : ¬ Yields (throw rc : RamM α) c a c' := by
  intro h
  have hrun : EStateM.Result.error rc c = EStateM.Result.ok a c' := h
  cases hrun

@[simp] theorem yields_attempt_ok {x : RamM α} {a : α} : Yields (attempt x) c (.ok a) c' ↔ Yields x c a c' := by
  simp only [Yields, attempt, EStateM.run]
  cases x c <;> simp

@[simp] theorem yields_attempt_error {x : RamM α} {rc : Rc} :
    Yields (attempt x) c (.error rc) c' ↔ x.run c = .error rc c' := by
  simp only [Yields, attempt, EStateM.run]
  cases x c <;> simp

end monad

/-- What the client meets: the error that request number `n` ends in, if it fails, and the key of draw number `n`. -/
structure RamWorld where
  fails : Nat → Option Rc
  draw : Nat → Hash
  myId : HashPrefix
  sha256 : Bytes → Hash

namespace RamWorld

variable (w : RamWorld)

def request {α : Type} (answer : FMap Hash Asset → Except Rc (α × FMap Hash Asset)) : RamM α := fun c =>
  let sent := { c with requests := c.requests + 1 }
  match w.fails c.requests, answer c.assets with
  | some rc, _ => .error rc sent
  | none, .error rc => .error rc sent
  | none, .ok (a, assets) => .ok a { sent with assets := assets }

def query (key : Hash) : RamM AssetData :=
  w.request fun assets => do
    let content ← queryAsset assets key
    pure (content, assets)

def createAsset (key : Hash) (content : AssetData) (days : UInt16) : RamM Unit :=
  w.request fun assets =>
    if key = ByteArr.zero 32 then .error .badInput
    else if (assets.lookup key).isSome then .error .assetExists
    else
      let balance := VmHost.newAssetBalance (assetBalance days false false false false) false
      .ok ((), assets.insert key ⟨w.myId, content, balance, 0⟩)

def updateAssetFast (key : Hash) (content : AssetData) : RamM Unit :=
  w.request fun assets =>
    match assets.lookup key with
    | none => .error .assetNotFound
    | some asset => .ok ((), assets.insert key { asset with content := content })

def drawKey : RamM Hash := fun c => .ok (w.draw c.draws) { c with draws := c.draws + 1 }

/-! ### Writers -/

def maxChunkCollisionRetries : Nat := 10

/-- Create a chunk under a random key, with so many attempts. -/
def createChunk (content : AssetData) (days : UInt16) : Nat → RamM Hash
  | 0 => throw .assetExists
  | attempts + 1 => do
    let key ← w.drawKey
    match ← attempt (w.createAsset key content days) with
    | .ok () => pure key
    | .error rc => if rc = .assetExists then createChunk content days attempts else throw rc

/-- The loop of `createChunkChain`: the chunks `i - 1` to `0`, each with the key of the one created before it. -/
def createChunks (data : Bytes) (days : UInt16) : Nat → Hash → List Hash → RamM (List Hash)
  | 0, _, keys => pure keys
  | i + 1, nextKey, keys => do
    let off := i * ramfileChunkDataSize
    let len := min ramfileChunkDataSize (data.length - off)
    let key ← w.createChunk (buildRamfileChunk ((data.drop off).take len) nextKey) days maxChunkCollisionRetries
    createChunks data days i key (key :: keys)

def createChunkChain (data : Bytes) (days : UInt16) (terminalNextKey : Hash) : RamM (List Hash) :=
  w.createChunks data days ((data.length + ramfileChunkDataSize - 1) / ramfileChunkDataSize) terminalNextKey []

def ramfilePut (now : UInt64) (headKey : Hash) (data : Bytes) (days : UInt16) (metadata : Bytes) : RamM Unit := do
  let chunkKeys ← w.createChunkChain data days (ByteArr.zero 32)
  let firstChunkKey := chunkKeys.headD (ByteArr.zero 32)
  w.createAsset headKey
    (buildRamfileHeader data.length (w.sha256 data) now now (ByteArr.ofList 121 metadata) firstChunkKey) days

/-- The loop of `ramfileWrite`: how much was written, and the error it stopped at. -/
def writeChunks : List Hash → Nat → Bytes → Nat → RamM (Nat × Option Rc)
  | [], _, _, written => pure (written, none)
  | key :: keys, startByte, data, written =>
    if data = [] then pure (written, none)
    else do
      let take := min (ramfileChunkDataSize - startByte) data.length
      let stored ← attempt do
        let content ← w.query key
        w.updateAssetFast key (content.patch startByte (data.take take))
      match stored with
      | .error rc => pure (written, some rc)
      | .ok () => writeChunks keys 0 (data.drop take) (written + take)

/-- What the chunks can hold, in 64 bits. -/
def capacity (chunks : List Hash) : Nat := chunks.length * ramfileChunkDataSize % 2 ^ 64

def ramfileWrite (now : UInt64) (keys : List Hash) (offset : Nat) (data : Bytes) : RamM Unit :=
  match keys with
  | [] => throw .internal
  | headKey :: chunks => do
    let (head, header) ← readHead w.query headKey
    if capacity chunks < offset then throw .internal
    else do
      let (written, writeErr) ←
        w.writeChunks (chunks.drop (offset / ramfileChunkDataSize)) (offset % ramfileChunkDataSize) data 0
      let writeEnd := (offset + written) % 2 ^ 64
      w.updateAssetFast headKey
        (touchedHead head (max header.fileSize writeEnd) (ByteArr.zero 32) header.firstChunk now)
      match writeErr with
      | some rc => throw rc
      | none => if written < data.length then throw .internal else pure ()

/-- Hang new chunks on the chain; the first chunk of the file is then this one. -/
def hangChunks (chunks : List Hash) (firstChunk newFirst : Hash) : RamM Hash :=
  match chunks.getLast? with
  | none => pure newFirst
  | some tail => do
    let tailContent ← w.query tail
    w.updateAssetFast tail (tailContent.patch ramfileNextOffset newFirst.bytes)
    pure firstChunk

/-- The part of `ramfileResize` that extends the chain, when a longer file needs it: the first chunk of the file,
and the new keys. -/
def growChain (chunks : List Hash) (header : RamfileHeader) (newSize : Nat) (days : UInt16) : RamM (Hash × List Hash) :=
  if newSize ≤ header.fileSize ∨ newSize ≤ capacity chunks then pure (header.firstChunk, [])
  else do
    let extraBytes := newSize - capacity chunks
    let extraChunksBytes := (extraBytes + ramfileChunkDataSize - 1) % 2 ^ 64 / ramfileChunkDataSize *
      ramfileChunkDataSize
    let newKeys ← w.createChunkChain (List.replicate extraChunksBytes 0) days (ByteArr.zero 32)
    match newKeys with
    | [] => throw .internal
    | newFirst :: _ => do
      let first ← w.hangChunks chunks header.firstChunk newFirst
      pure (first, newKeys)

/-- Returns the keys of the file, with those of the new chunks. -/
def ramfileResize (now : UInt64) (keys : List Hash) (newSize : Nat) (days : UInt16) : RamM (List Hash) :=
  match keys with
  | [] => throw .internal
  | headKey :: chunks => do
    let (head, header) ← readHead w.query headKey
    if newSize = header.fileSize then pure keys
    else do
      let (firstChunk, newKeys) ← w.growChain chunks header newSize days
      w.updateAssetFast headKey (touchedHead head newSize (ByteArr.zero 32) firstChunk now)
      pure (keys ++ newKeys)

/-! ### What a call did -/

variable {w} {c c' : RamClient} {key : Hash} {content : AssetData}

theorem readable_congr {assets assets' : FMap Hash Asset} (h : assets'.lookup key = assets.lookup key) :
    readable assets' key = readable assets key := by
  rw [readable, h, readable]

/-- One asset was written, and everybody may read it. -/
structure Writes (assets assets' : FMap Hash Asset) (key : Hash) (content : AssetData) : Prop where
  here : readable assets' key = some content
  other : ∀ k, k ≠ key → assets'.lookup k = assets.lookup k

theorem Writes.insert {assets : FMap Hash Asset} {asset : Asset} (hpublic : isAssetPrivate asset.balance = false)
    (key : Hash) : Writes assets (assets.insert key asset) key asset.content := by
  refine ⟨?_, fun k hk => Finmap.lookup_insert_of_ne _ hk⟩
  simp [readable, hpublic]

theorem request_ok {α : Type} {answer : FMap Hash Asset → Except Rc (α × FMap Hash Asset)} {a : α}
    (h : Yields (w.request answer) c a c') : answer c.assets = .ok (a, c'.assets) := by
  simp only [Yields, EStateM.run, request] at h
  cases hfails : w.fails c.requests with
  | some rc => simp [hfails] at h
  | none =>
    cases hanswer : answer c.assets with
    | error rc => simp [hfails, hanswer] at h
    | ok r =>
      simp only [hfails, hanswer, EStateM.Result.ok.injEq] at h
      rw [← h.1, ← h.2]

/-- A request that fails changes no asset. -/
theorem request_error {α : Type} {answer : FMap Hash Asset → Except Rc (α × FMap Hash Asset)} {rc : Rc}
    (h : (w.request answer).run c = .error rc c') : c'.assets = c.assets := by
  simp only [EStateM.run, request] at h
  split at h
  · simp only [EStateM.Result.error.injEq] at h
    rw [← h.2]
  · simp only [EStateM.Result.error.injEq] at h
    rw [← h.2]
  · simp at h

theorem yields_query (h : Yields (w.query key) c content c') :
    content = (readable c.assets key).getD (ByteArr.zero 210) ∧ c'.assets = c.assets := by
  have hanswer := request_ok h
  simp only [queryAsset, bind, Except.bind, pure, Except.pure, Except.ok.injEq, Prod.mk.injEq] at hanswer
  exact ⟨hanswer.1.symm, hanswer.2.symm⟩

theorem yields_createAsset {days : UInt16} (h : Yields (w.createAsset key content days) c () c') :
    key ≠ ByteArr.zero 32 ∧ c.assets.lookup key = none ∧ Writes c.assets c'.assets key content := by
  have hanswer := request_ok h
  split_ifs at hanswer with hzero hthere
  simp only [Except.ok.injEq, Prod.mk.injEq, true_and] at hanswer
  rw [← hanswer]
  refine ⟨hzero, by simpa using hthere, Writes.insert ?_ key⟩
  have hflag := isAssetPrivate_assetBalance days false false false false
  exact (isAssetPrivate_assetBalance _ _ _ _ _).trans hflag

theorem yields_updateAssetFast {old : AssetData} (hold : readable c.assets key = some old)
    (h : Yields (w.updateAssetFast key content) c () c') : Writes c.assets c'.assets key content := by
  have hanswer := request_ok h
  cases hasset : c.assets.lookup key with
  | none => simp [hasset] at hanswer
  | some asset =>
    simp only [hasset, Except.ok.injEq, Prod.mk.injEq, true_and] at hanswer
    rw [← hanswer]
    refine Writes.insert ?_ key
    by_contra hprivate
    simp [readable, hasset, hprivate] at hold

theorem yields_readHead {headKey : Hash} {head : AssetData} {header : RamfileHeader}
    (h : Yields (readHead w.query headKey) c (head, header) c') :
    head = (readable c.assets headKey).getD (ByteArr.zero 210) ∧ parseRamfileHeader head = some header ∧
      c'.assets = c.assets := by
  rw [readHead, yields_bind] at h
  obtain ⟨content, c₁, hquery, hparse⟩ := h
  obtain ⟨hcontent, hassets⟩ := yields_query hquery
  cases hheader : parseRamfileHeader content with
  | none => simp [hheader] at hparse
  | some header' =>
    simp only [hheader, yields_pure, Prod.mk.injEq] at hparse
    obtain ⟨⟨rfl, rfl⟩, rfl⟩ := hparse
    exact ⟨hcontent, hheader, hassets⟩

theorem yields_createChunk {days : UInt16} {attempts : Nat}
    (h : Yields (w.createChunk content days attempts) c key c') :
    key ≠ ByteArr.zero 32 ∧ c.assets.lookup key = none ∧ Writes c.assets c'.assets key content := by
  induction attempts generalizing c with
  | zero => simp [createChunk] at h
  | succ attempts ih =>
    simp only [createChunk, yields_bind] at h
    obtain ⟨drawn, c₁, hdraw, outcome, c₂, hcreate, hrest⟩ := h
    have hdrawn : c₁.assets = c.assets := by
      simp only [Yields, EStateM.run, drawKey, EStateM.Result.ok.injEq] at hdraw
      rw [← hdraw.2]
    cases outcome with
    | ok u =>
      simp only [yields_pure] at hrest
      obtain ⟨rfl, rfl⟩ := hrest
      rw [← hdrawn]
      exact yields_createAsset (yields_attempt_ok.mp hcreate)
    | error rc =>
      have hsame : c₂.assets = c.assets := (request_error (yields_attempt_error.mp hcreate)).trans hdrawn
      dsimp only at hrest
      split_ifs at hrest with hexists
      · rw [← hsame]
        exact ih hrest
      · exact absurd hrest not_yields_throw

end RamWorld

/-- The new chunks are a chain with the bytes in it. Nothing else changed, and the keys were free. -/
structure Chained (assets assets' : FMap Hash Asset) (keys : List Hash) (data : Bytes) (last : Hash)
    (cells : List (Hash × AssetData)) : Prop where
  linked : Linked id (readable assets') (keys.headD last) cells last
  keys_eq : cells.map Prod.fst = keys
  holds : (stored id cells).take data.length = data
  free : ∀ key ∈ keys, assets.lookup key = none
  other : ∀ key, key ∉ keys → assets'.lookup key = assets.lookup key

namespace RamWorld

variable {w : RamWorld} {c c' : RamClient}

/-- A piece and what comes after it. -/
theorem take_padTo_append {w : Nat} {data rest : Bytes} (h : rest.take (data.drop w).length = data.drop w) :
    (padTo w (data.take (min w data.length)) ++ rest).take data.length = data := by
  rw [List.length_drop] at h
  rw [List.take_append, padTo_length, h, padTo_eq, List.take_take, List.length_take]
  by_cases hlong : w ≤ data.length
  · have hpad : w - min (min w data.length) data.length = 0 := by omega
    rw [hpad, List.replicate_zero, List.append_nil, List.take_take,
      show min data.length (min w (min w data.length)) = w by omega, List.take_append_drop]
  · have htake : data.take (min w (min w data.length)) = data := List.take_of_length_le (by omega)
    rw [htake, List.take_left, List.drop_eq_nil_of_le (by omega), List.append_nil]

theorem yields_createChunks {data : Bytes} {days : UInt16} {i : Nat} {nextKey last : Hash} {keys keys' : List Hash}
    {assets : FMap Hash Asset} {cells : List (Hash × AssetData)}
    (hcells : Chained assets c.assets keys (data.drop (i * ramfileChunkDataSize)) last cells)
    (hnext : nextKey = keys.headD last) (h : Yields (w.createChunks data days i nextKey keys) c keys' c') :
    ∃ cells', Chained assets c'.assets keys' data last cells' ∧ cells'.length = cells.length + i := by
  induction i generalizing c nextKey keys cells with
  | zero =>
    simp only [createChunks, yields_pure] at h
    obtain ⟨rfl, rfl⟩ := h
    exact ⟨cells, by simpa using hcells, rfl⟩
  | succ i ih =>
    simp only [createChunks, yields_bind] at h
    obtain ⟨key, c₁, hchunk, hrest⟩ := h
    obtain ⟨hne, hfree, hwrites⟩ := yields_createChunk hchunk
    have hfresh : key ∉ keys := by
      intro hmem
      rw [← hcells.keys_eq] at hmem
      obtain ⟨content, -, hreadable, -⟩ := hcells.linked.after hmem
      simp [readable, hfree] at hreadable
    generalize hpiece : buildRamfileChunk ((data.drop (i * ramfileChunkDataSize)).take
      (min ramfileChunkDataSize (data.length - i * ramfileChunkDataSize))) nextKey = chunk at hchunk hwrites
    have hnew : Chained assets c₁.assets (key :: keys) (data.drop (i * ramfileChunkDataSize)) last
        ((key, chunk) :: cells) := by
      refine ⟨⟨rfl, hne, hwrites.here, ?_⟩, by simp [hcells.keys_eq], ?_, ?_, ?_⟩
      · rw [id_eq, ← hpiece, nextChunk_build, hnext]
        refine hcells.linked.congr fun cell hcell => readable_congr (hwrites.other _ ?_)
        rintro rfl
        exact hfresh (hcells.keys_eq ▸ List.mem_map_of_mem hcell)
      · rw [stored_cons, id_eq, ← hpiece, payload_build, ← List.length_drop]
        refine take_padTo_append ?_
        have hdrop : (data.drop (i * ramfileChunkDataSize)).drop ramfileChunkDataSize =
            data.drop ((i + 1) * ramfileChunkDataSize) := by
          rw [List.drop_drop]
          congr 1
          ring
        rw [hdrop]
        exact hcells.holds
      · intro k hk
        rcases List.mem_cons.mp hk with rfl | hk
        · rw [← hcells.other _ hfresh, hfree]
        · exact hcells.free k hk
      · intro k hk
        rw [List.mem_cons, not_or] at hk
        rw [hwrites.other k hk.1, hcells.other k hk.2]
    obtain ⟨cells', hcells', hlen⟩ := ih hnew rfl hrest
    refine ⟨cells', hcells', ?_⟩
    rw [hlen, List.length_cons]
    omega

theorem yields_createChunkChain {data : Bytes} {days : UInt16} {last : Hash} {keys : List Hash}
    (h : Yields (w.createChunkChain data days last) c keys c') :
    ∃ cells, Chained c.assets c'.assets keys data last cells ∧
      cells.length = (data.length + ramfileChunkDataSize - 1) / ramfileChunkDataSize := by
  have hnone : data.drop ((data.length + ramfileChunkDataSize - 1) / ramfileChunkDataSize *
    ramfileChunkDataSize) = [] := by
    have hsize : ramfileChunkDataSize = 178 := rfl
    refine List.drop_eq_nil_of_le ?_
    rw [hsize]
    omega
  have hstart : Chained c.assets c.assets []
      (data.drop ((data.length + ramfileChunkDataSize - 1) / ramfileChunkDataSize * ramfileChunkDataSize)) last [] := by
    rw [hnone]
    exact ⟨rfl, rfl, rfl, by simp, fun _ _ => rfl⟩
  obtain ⟨cells, hcells, hlen⟩ := yields_createChunks hstart rfl h
  exact ⟨cells, hcells, by simpa using hlen⟩

end RamWorld

/-! ### Files -/

/-- A file as it lies in the store. -/
structure FileAt (q : Hash → Option AssetData) (headKey : Hash) (head : AssetData) (header : RamfileHeader)
    (cells : List (Hash × AssetData)) : Prop where
  here : q headKey = some head
  parsed : parseRamfileHeader head = some header
  linked : Linked id q header.firstChunk cells (ByteArr.zero 32)
  covers : header.fileSize ≤ ramfileChunkDataSize * cells.length

section file

variable {q : Hash → Option AssetData} {headKey : Hash} {head : AssetData} {header : RamfileHeader}
  {cells : List (Hash × AssetData)}

namespace FileAt

/-- The head is not one of the chunks: its pointer leads to the first of them. -/
theorem apart (h : FileAt q headKey head header cells) : headKey ∉ cells.map Prod.fst := by
  refine h.linked.apart h.here ?_
  have hparsed := h.parsed
  simp only [parseRamfileHeader] at hparsed
  split_ifs at hparsed
  obtain rfl := Option.some.inj hparsed
  rfl

theorem congr {q' : Hash → Option AssetData} (h : FileAt q headKey head header cells)
    (hsame : ∀ key ∈ headKey :: cells.map Prod.fst, q' key = q key) : FileAt q' headKey head header cells := by
  refine ⟨?_, h.parsed, h.linked.congr fun cell hcell => hsame _ ?_, h.covers⟩
  · rw [hsame headKey (by simp), h.here]
  · exact List.mem_cons_of_mem _ (List.mem_map_of_mem hcell)

end FileAt

theorem stored_drop (cells : List (Hash × AssetData)) (n : Nat) :
    stored id (cells.drop n) = (stored id cells).drop (n * ramfileChunkDataSize) := by
  induction n generalizing cells with
  | zero => simp
  | succ n ih =>
    cases cells with
    | nil => simp [stored]
    | cons cell rest =>
      rw [List.drop_succ_cons, ih, stored_cons, show (n + 1) * ramfileChunkDataSize =
        (payload (id cell.2)).length + n * ramfileChunkDataSize by
          rw [payload_length]; ring, ← List.drop_drop, List.drop_left]

variable {query : Hash → Except Rc AssetData}

theorem readFrom_stored {s n : Nat} (hcells : ∀ cell ∈ cells, query cell.1 = .ok cell.2)
    (hs : s ≤ ramfileChunkDataSize) :
    readFrom query (cells.map Prod.fst) s n = .ok (((stored id cells).drop s).take n) := by
  induction cells generalizing s n with
  | nil => simp [readFrom, stored]
  | cons cell rest ih =>
    have hcell := hcells cell (by simp)
    have hrest := fun m => @ih 0 m (fun other hother => hcells other (by simp [hother])) (Nat.zero_le _)
    rw [List.map_cons, readFrom]
    split_ifs with hn
    · simp [hn]
    · simp only [hcell, hrest, bind, Except.bind, List.drop_zero, Except.ok.injEq]
      rw [stored_cons, List.drop_append_of_le_length (by rw [payload_length]; exact hs), List.take_append,
        List.length_drop, payload_length, id_eq, payload, List.drop_take, List.take_take]
      congr 2
      · omega
      · omega

theorem scanChunks_linked {first : Hash} {fuel : Nat} {visited : List Hash}
    (h : Linked id (fun key => (query key).toOption) first cells (ByteArr.zero 32))
    (hnew : ∀ key ∈ visited, key ∉ cells.map Prod.fst) (hfuel : cells.length < fuel) :
    scanChunks query fuel visited first = .ok (cells.map Prod.fst) := by
  induction cells generalizing first fuel visited with
  | nil =>
    obtain rfl : first = ByteArr.zero 32 := h
    cases fuel with
    | zero => omega
    | succ fuel => simp [scanChunks]
  | cons cell rest ih =>
    obtain ⟨fuel, rfl⟩ : ∃ n, fuel = n + 1 := Nat.exists_eq_succ_of_ne_zero (by omega)
    have hdistinct := h.nodup
    obtain ⟨hkey, hne, hcell, hrest⟩ := h
    have hquery := ok_of_toOption hcell
    have hvisited : first ∉ visited := fun hmem => hnew first hmem (by simp [hkey])
    have hmore := @ih (nextChunk cell.2) fuel (first :: visited) hrest
      (by
        intro key hmem
        rcases List.mem_cons.mp hmem with rfl | hmem
        · exact hkey ▸ (List.nodup_cons.mp hdistinct).1
        · exact fun hin => hnew key hmem (by simp [hin]))
      (by rw [List.length_cons] at hfuel; omega)
    rw [List.map_cons, ← hkey]
    simp only [scanChunks, hne, hvisited, if_false, hquery, bind, Except.bind, hmore]

namespace FileAt

variable {sha256 : Bytes → Hash}

theorem ramfileGet (h : FileAt (fun key => (query key).toOption) headKey head header cells) :
    ramfileGet query sha256 headKey = .ok ⟨head, header, (stored id cells).take header.fileSize,
      header.fileSize != 0 && sha256 ((stored id cells).take header.fileSize) != head.slice 9 32⟩ := by
  have hhead := ok_of_toOption h.here
  rw [ramfileGet_eq hhead h.parsed, getChunks_linked h.linked h.linked.nodup (by simp) (.inr rfl) (Nat.sub_le _ _)]
  rfl

theorem ramfileScan (h : FileAt (fun key => (query key).toOption) headKey head header cells) {fuel : Nat}
    (hfuel : cells.length < fuel) : ramfileScan query fuel headKey = .ok (headKey :: cells.map Prod.fst) := by
  have hhead := ok_of_toOption h.here
  have hscan : scanChunks query fuel [] header.firstChunk = .ok (cells.map Prod.fst) :=
    scanChunks_linked h.linked (by simp) hfuel
  simp only [Ces.ramfileScan, readHead_of_parse hhead h.parsed, bind, Except.bind, hscan]

/-- A reader sees the stored bytes up to the declared size. -/
theorem ramfileRead (h : FileAt (fun key => (query key).toOption) headKey head header cells) (offset length : Nat) :
    ramfileRead query (headKey :: cells.map Prod.fst) offset length =
      .ok ((((stored id cells).take header.fileSize).drop offset).take length) := by
  have hsize : ramfileChunkDataSize = 178 := rfl
  simp only [Ces.ramfileRead, readHead_of_parse (ok_of_toOption h.here) h.parsed, bind, Except.bind]
  split_ifs with hpast
  · rw [List.drop_eq_nil_of_le (by rw [List.length_take]; omega), List.take_nil]
  · rw [← List.map_drop,
      readFrom_stored (fun cell hcell => ok_of_toOption (h.linked.lookup (List.mem_of_mem_drop hcell)))
      (by rw [hsize]; omega), stored_drop, List.drop_drop, List.drop_take, List.take_take]
    congr 3
    rw [hsize]
    omega

/-- What the query answers about a file. -/
theorem queried {assets : FMap Hash Asset} (h : FileAt (readable assets) headKey head header cells) :
    FileAt (fun key => (queryAsset assets key).toOption) headKey head header cells := by
  refine h.congr fun key hkey => ?_
  have hthere : ∃ content, readable assets key = some content := by
    rcases List.mem_cons.mp hkey with rfl | hkey
    · exact ⟨head, h.here⟩
    · obtain ⟨content, -, hcontent, -⟩ := h.linked.after hkey
      exact ⟨content, hcontent⟩
  obtain ⟨content, hcontent⟩ := hthere
  simp [queryAsset, hcontent, Except.toOption]

end FileAt

end file

/-! ### Uploads -/

section put

variable {w : RamWorld} {c c' : RamClient} {now : UInt64} {headKey : Hash} {data metadata : Bytes} {days : UInt16}

/-- The chunks and the head that an upload creates. -/
theorem yields_ramfilePut (hdata : data.length < 2 ^ 64)
    (h : Yields (w.ramfilePut now headKey data days metadata) c () c') :
    ∃ head firstChunk cells, FileAt (readable c'.assets) headKey head ⟨data.length, firstChunk⟩ cells ∧
      (stored id cells).take data.length = data ∧ head.slice 9 32 = w.sha256 data ∧
      ∀ key, c'.assets.lookup key ≠ c.assets.lookup key ↔ key ∈ headKey :: cells.map Prod.fst := by
  simp only [RamWorld.ramfilePut, yields_bind] at h
  obtain ⟨keys, c₁, hchain, hhead⟩ := h
  obtain ⟨cells, hcells, hlen⟩ := RamWorld.yields_createChunkChain hchain
  obtain ⟨-, hfree, hwrites⟩ := RamWorld.yields_createAsset hhead
  obtain ⟨hparse, hhash, -, -⟩ :=
    buildRamfileHeader_fields data.length (w.sha256 data) now now (ByteArr.ofList 121 metadata)
    (keys.headD (ByteArr.zero 32))
  rw [Nat.mod_eq_of_lt hdata] at hparse
  have hthere : ∀ key ∈ keys, c₁.assets.lookup key ≠ none := by
    intro key hkey
    rw [← hcells.keys_eq] at hkey
    obtain ⟨content, -, hcontent, -⟩ := hcells.linked.after hkey
    intro hnone
    simp [readable, hnone] at hcontent
  have hapart : headKey ∉ keys := fun hmem => hthere headKey hmem hfree
  have hkept : ∀ key ∈ keys, c'.assets.lookup key = c₁.assets.lookup key := fun key hkey =>
    hwrites.other key fun heq => hapart (heq ▸ hkey)
  refine ⟨_, _, cells, ⟨hwrites.here, hparse, ?_, ?_⟩, hcells.holds, hhash, ?_⟩
  · refine hcells.linked.congr fun cell hcell => RamWorld.readable_congr (hkept _ ?_)
    exact hcells.keys_eq ▸ List.mem_map_of_mem hcell
  · have hsize : ramfileChunkDataSize = 178 := rfl
    rw [hlen, hsize]
    dsimp only
    omega
  · intro key
    rw [hcells.keys_eq, List.mem_cons]
    by_cases heq : key = headKey
    · subst heq
      have hbefore : c.assets.lookup key = none := (hcells.other key hapart).symm.trans hfree
      have hafter : c'.assets.lookup key ≠ none := by
        intro hnone
        have hhere := hwrites.here
        simp [readable, hnone] at hhere
      simp [hbefore, hafter]
    · rw [hwrites.other key heq]
      by_cases hkey : key ∈ keys
      · simp [hkey, hcells.free key hkey, hthere key hkey]
      · simp [hkey, heq, hcells.other key hkey]

/-- An upload reads back: as long as the assets it created stay as they are, the download is the uploaded bytes with the
right hash, the scan is the head and the chunks, and a read with it is the slice of the bytes. -/
theorem ramfilePut_reads_back (hdata : data.length < 2 ^ 64)
    (h : Yields (w.ramfilePut now headKey data days metadata) c () c') :
    ∃ chunks, (∀ key, c'.assets.lookup key ≠ c.assets.lookup key ↔ key ∈ headKey :: chunks) ∧
      ∀ assets : FMap Hash Asset, (∀ key ∈ headKey :: chunks, assets.lookup key = c'.assets.lookup key) →
        (∃ file, ramfileGet (queryAsset assets) w.sha256 headKey = .ok file ∧ file.data = data ∧
          file.hashMismatch = false) ∧
        (∀ fuel, chunks.length < fuel → ramfileScan (queryAsset assets) fuel headKey = .ok (headKey :: chunks)) ∧
        ∀ offset length, ramfileRead (queryAsset assets) (headKey :: chunks) offset length =
          .ok ((data.drop offset).take length) := by
  obtain ⟨head, firstChunk, cells, hfile, hholds, hhash, hcreated⟩ := yields_ramfilePut hdata h
  refine ⟨cells.map Prod.fst, hcreated, fun assets hsame => ?_⟩
  have hlater := (hfile.congr fun key hkey => RamWorld.readable_congr (hsame key hkey)).queried
  refine ⟨⟨_, hlater.ramfileGet, hholds, ?_⟩, fun fuel hfuel => ?_, fun offset length => ?_⟩
  · simp [hholds, hhash]
  · exact hlater.ramfileScan (by simpa using hfuel)
  · rw [hlater.ramfileRead, hholds]

end put

/-- No request fails, and every draw gives another key. -/
def calmWorld : RamWorld :=
  ⟨fun _ => none, fun n => ByteArr.ofList 32 [UInt8.ofNat (n + 2)], mailOwner, fun _ => ByteArr.zero 32⟩

theorem ramfilePut_reads_back_two_chunks :
    ∃ c' file, Yields (calmWorld.ramfilePut 1 mailFile (List.replicate 200 7) 3 []) ⟨∅, 0, 0⟩ () c' ∧
      ramfileGet (queryAsset c'.assets) calmWorld.sha256 mailFile = .ok file ∧ file.data = List.replicate 200 7 := by
  obtain ⟨c', hput⟩ : ∃ c', Yields (calmWorld.ramfilePut 1 mailFile (List.replicate 200 7) 3 []) ⟨∅, 0, 0⟩ () c' := by
    have hok : (match (calmWorld.ramfilePut 1 mailFile (List.replicate 200 7) 3 []).run ⟨∅, 0, 0⟩ with
      | .ok _ _ => true
      | .error _ _ => false) = true := by decide +kernel
    cases hrun : (calmWorld.ramfilePut 1 mailFile (List.replicate 200 7) 3 []).run ⟨∅, 0, 0⟩ with
    | ok a c' => exact ⟨c', hrun⟩
    | error rc c' =>
      rw [hrun] at hok
      cases hok
  obtain ⟨chunks, -, hread⟩ := ramfilePut_reads_back (by rw [List.length_replicate]; decide) hput
  obtain ⟨⟨file, hget, hdata, -⟩, -, -⟩ := hread c'.assets fun _ _ => rfl
  exact ⟨c', file, hput, hget, hdata⟩

end Ces
