import Ces.Ledger.Completion

/-!
# Files in RAM

A file is a head asset and a chain of chunk assets, each with 178 bytes of payload and the key of the next chunk.
`Linked` is such a chain as it lies in a store. The walk of `readFileChunkBytes` and the walk of `completeRpc`
follow it; the second rewrites the payload of the chunks it may write and keeps their pointers, so the first then
reads the reply back.
-/

namespace Ces

open Ces.Lib CesServer

/-! ### Cells -/

/-- A field of an array that is a row of fields. -/
theorem slice_of_fields {n off len : Nat} {a : ByteArr n} {field : Bytes} (before after : List Bytes)
    (h : a.bytes = (before ++ field :: after).flatten) (hoff : before.flatten.length = off)
    (hlen : field.length = len) :
    (a.slice off len).bytes = field := by
  rw [List.flatten_append, List.flatten_cons] at h
  have hsize := congrArg List.length h
  simp only [a.size_eq, List.length_append] at hsize
  rw [ByteArr.bytes_slice _ (by omega), h, List.drop_left' hoff, List.take_left' hlen]

/-- The first `w` bytes, with zeros for those that are missing. -/
def padTo (w : Nat) (data : Bytes) : Bytes := (data ++ List.replicate w 0).take w

@[simp] theorem padTo_length (w : Nat) (data : Bytes) : (padTo w data).length = w := by
  simp [padTo]

theorem padTo_eq (w : Nat) (data : Bytes) : padTo w data = data.take w ++ List.replicate (w - data.length) 0 := by
  rw [padTo, List.take_append, List.take_replicate]
  congr 2
  omega

theorem ofList_take {w n : Nat} (data : Bytes) (h : w ≤ n) :
    (ByteArr.ofList n (data.take w)).bytes.take w = padTo w data := by
  have hn : (ByteArr.ofList n (data.take w)).bytes = padTo n (data.take w) := rfl
  rw [hn, padTo_eq, padTo_eq, List.take_append, List.take_take, List.take_take, List.take_replicate]
  simp only [List.length_take]
  congr 2
  · omega
  · omega

def nextChunk (content : AssetData) : Hash := content.slice ramfileNextOffset 32

def payload (content : AssetData) : Bytes := content.bytes.take ramfileChunkDataSize

@[simp] theorem payload_length (content : AssetData) : (payload content).length = ramfileChunkDataSize := by
  rw [payload, List.length_take, content.size_eq]
  rfl

theorem buildRamfileChunk_bytes (data : Bytes) (nextKey : Hash) :
    (buildRamfileChunk data nextKey).bytes = [padTo ramfileChunkDataSize data, nextKey.bytes].flatten := by
  have hnext := nextKey.size_eq
  rw [buildRamfileChunk, ByteArr.bytes_patch _ (by simp only [ramfileNextOffset]; omega), ← ofList_take data
    (by decide : ramfileChunkDataSize ≤ 210)]
  have hrest : (ByteArr.ofList 210 (data.take ramfileChunkDataSize)).bytes.drop
      (ramfileNextOffset + nextKey.bytes.length) =
      [] := by
    apply List.drop_eq_nil_of_le
    rw [ByteArr.size_eq, hnext]
    decide
  rw [hrest]
  simp only [List.flatten_cons, List.flatten_nil, List.append_nil]
  rfl

theorem nextChunk_build (data : Bytes) (nextKey : Hash) : nextChunk (buildRamfileChunk data nextKey) = nextKey := by
  apply ByteArr.ext
  refine slice_of_fields [padTo ramfileChunkDataSize data] [] (buildRamfileChunk_bytes data nextKey) ?_ nextKey.size_eq
  rw [List.flatten_singleton, padTo_length]
  rfl

theorem payload_build (data : Bytes) (nextKey : Hash) :
    payload (buildRamfileChunk data nextKey) = padTo ramfileChunkDataSize data := by
  rw [payload, buildRamfileChunk_bytes, List.flatten_cons]
  exact List.take_left' (padTo_length _ _)

section header

variable (fileSize : Nat) (contentHash : Hash) (createdTime modifiedTime : UInt64) (metadata : ByteArr 121)
  (firstChunk : Hash)

theorem buildRamfileHeader_bytes :
    (buildRamfileHeader fileSize contentHash createdTime modifiedTime metadata firstChunk).bytes =
      [[0x46], (leBytes 8 fileSize).reverse, contentHash.bytes, (leBytes 8 createdTime.toNat).reverse,
        (leBytes 8 modifiedTime.toNat).reverse, metadata.bytes, firstChunk.bytes].flatten := by
  rw [buildRamfileHeader, ByteArr.ofList_bytes]
  · simp only [List.flatten_cons, List.flatten_nil, List.append_nil, List.append_assoc]
  · simp only [List.length_append, List.length_reverse, leBytes_length, contentHash.size_eq, metadata.size_eq,
      firstChunk.size_eq, List.length_singleton]

/-- What the fields of a head read back. -/
theorem buildRamfileHeader_fields :
    let head := buildRamfileHeader fileSize contentHash createdTime modifiedTime metadata firstChunk
    parseRamfileHeader head = some ⟨fileSize % 2 ^ 64, firstChunk⟩ ∧ head.slice 9 32 = contentHash ∧
      UInt64.ofNat (beNat (head.slice 41 8).bytes) = createdTime ∧ head.slice 57 121 = metadata := by
  intro head
  have hbytes := buildRamfileHeader_bytes fileSize contentHash createdTime modifiedTime metadata firstChunk
  have hle : ∀ v, (leBytes 8 v).reverse.length = 8 := fun v => by rw [List.length_reverse, leBytes_length]
  have hhash := contentHash.size_eq
  have hmeta := metadata.size_eq
  refine ⟨?_, ?_, ?_, ?_⟩
  · have hmagic : (head.slice 0 1).bytes = [0x46] := slice_of_fields [] _ hbytes rfl rfl
    have hsize : (head.slice 1 8).bytes = (leBytes 8 fileSize).reverse :=
      slice_of_fields [_] _ hbytes rfl (hle fileSize)
    have hfirst : head.slice 178 32 = firstChunk := ByteArr.ext
      (slice_of_fields [_, _, _, _, _, _] [] hbytes (by simp [leBytes_length, hhash, hmeta]) firstChunk.size_eq)
    rw [parseRamfileHeader, if_pos hmagic, hsize, beNat_reverse, leNat_leBytes, hfirst]
    norm_num
  · exact ByteArr.ext (slice_of_fields [_, _] _ hbytes (by simp [leBytes_length]) hhash)
  · have htime : (head.slice 41 8).bytes = (leBytes 8 createdTime.toNat).reverse :=
      slice_of_fields [_, _, _] _ hbytes (by simp [leBytes_length, hhash]) (hle _)
    have hlt : createdTime.toNat < 256 ^ 8 := createdTime.toNat_lt
    rw [htime, beNat_reverse, leNat_leBytes, Nat.mod_eq_of_lt hlt, UInt64.ofNat_toNat]
  · exact ByteArr.ext (slice_of_fields [_, _, _, _, _] _ hbytes (by simp [leBytes_length, hhash]) hmeta)

end header

/-! ### Chains -/

section chain

variable {C : Type} (content : C → AssetData) (q : Hash → Option C)

/-- From the key `first` the cells lead to the key `last`. -/
def Linked : Hash → List (Hash × C) → Hash → Prop
  | first, [], last => first = last
  | first, cell :: rest, last =>
    first = cell.1 ∧ first ≠ ByteArr.zero 32 ∧ q first = some cell.2 ∧ Linked (nextChunk (content cell.2)) rest last

/-- The payload of the cells. -/
def stored (cells : List (Hash × C)) : Bytes := cells.flatMap fun cell => payload (content cell.2)

variable {content q} {first last : Hash} {cells : List (Hash × C)}

theorem stored_cons (cell : Hash × C) (cells : List (Hash × C)) :
    stored content (cell :: cells) = payload (content cell.2) ++ stored content cells := List.flatMap_cons

theorem stored_length (cells : List (Hash × C)) :
    (stored content cells).length = ramfileChunkDataSize * cells.length := by
  induction cells with
  | nil => rfl
  | cons cell rest ih =>
    rw [stored_cons, List.length_append, payload_length, ih, List.length_cons]
    ring

theorem Linked.lookup (h : Linked content q first cells last) {cell : Hash × C} (hmem : cell ∈ cells) :
    q cell.1 = some cell.2 := by
  induction cells generalizing first with
  | nil => simp at hmem
  | cons head rest ih =>
    obtain ⟨hkey, -, hcell, hrest⟩ := h
    rcases List.mem_cons.mp hmem with rfl | hmem
    · rw [← hkey, hcell]
    · exact ih hrest hmem

/-- A chain is still there in a store that has its cells. -/
theorem Linked.congr {q' : Hash → Option C} (h : Linked content q first cells last)
    (hsame : ∀ cell ∈ cells, q' cell.1 = q cell.1) : Linked content q' first cells last := by
  induction cells generalizing first with
  | nil => exact h
  | cons cell rest ih =>
    obtain ⟨hkey, hne, hcell, hrest⟩ := h
    refine ⟨hkey, hne, ?_, ih hrest fun cell hcell => hsame cell (by simp [hcell])⟩
    rw [hkey, hsame cell (by simp), ← hkey, hcell]

theorem linked_append {cells' : List (Hash × C)} :
    Linked content q first (cells ++ cells') last ↔
      ∃ mid, Linked content q first cells mid ∧ Linked content q mid cells' last := by
  induction cells generalizing first with
  | nil => simp [Linked]
  | cons cell rest ih => simp only [List.cons_append, Linked, ih, and_assoc, exists_and_left]

/-- The cells of a chain that ends are determined by where it begins. -/
theorem Linked.unique {cells' : List (Hash × C)} (h : Linked content q first cells (ByteArr.zero 32))
    (h' : Linked content q first cells' (ByteArr.zero 32)) : cells = cells' := by
  induction cells generalizing first cells' with
  | nil =>
    cases cells' with
    | nil => rfl
    | cons cell' rest' => exact absurd h h'.2.1
  | cons cell rest ih =>
    cases cells' with
    | nil => exact absurd h' h.2.1
    | cons cell' rest' =>
      obtain ⟨hkey, -, hcell, hrest⟩ := h
      obtain ⟨hkey', -, hcell', hrest'⟩ := h'
      have hcontent : cell.2 = cell'.2 := Option.some.inj (hcell.symm.trans hcell')
      rw [← hcontent] at hrest'
      rw [ih hrest hrest', Prod.ext (hkey.symm.trans hkey') hcontent]

/-- After a cell of a chain comes a shorter one. -/
theorem Linked.after (h : Linked content q first cells last) {key : Hash} (hmem : key ∈ cells.map Prod.fst) :
    ∃ c rest, q key = some c ∧ Linked content q (nextChunk (content c)) rest last ∧ rest.length < cells.length := by
  induction cells generalizing first with
  | nil => simp at hmem
  | cons cell rest ih =>
    obtain ⟨hkey, -, hcell, hrest⟩ := h
    rcases List.mem_cons.mp hmem with rfl | hmem
    · exact ⟨cell.2, rest, hkey ▸ hcell, hrest, by simp⟩
    · obtain ⟨c, rest', hc, hrest', hlt⟩ := ih hrest hmem
      exact ⟨c, rest', hc, hrest', by rw [List.length_cons]; omega⟩

/-- A chain that ends does not come back to a cell it left. -/
theorem Linked.apart (h : Linked content q first cells (ByteArr.zero 32)) {key : Hash} {c : C} (hq : q key = some c)
    (hnext : nextChunk (content c) = first) : key ∉ cells.map Prod.fst := by
  intro hmem
  obtain ⟨c', rest, hc', hrest, hlt⟩ := h.after hmem
  obtain rfl : c = c' := Option.some.inj (hq.symm.trans hc')
  rw [hnext] at hrest
  exact absurd (congrArg List.length (h.unique hrest)) (by omega)

theorem Linked.nodup (h : Linked content q first cells (ByteArr.zero 32)) : (cells.map Prod.fst).Nodup := by
  induction cells generalizing first with
  | nil => exact List.nodup_nil
  | cons cell rest ih =>
    obtain ⟨hkey, -, hcell, hrest⟩ := h
    rw [List.map_cons, List.nodup_cons]
    exact ⟨hrest.apart (hkey ▸ hcell) rfl, ih hrest⟩

end chain

/-- `readChunks` reads the payload of the chain. -/
theorem readChunks_linked {assets : FMap Hash Asset} {first last : Hash} {cells : List (Hash × Asset)} {n fuel : Nat}
    {acc : Bytes} (h : Linked Asset.content assets.lookup first cells last)
    (hn : n ≤ ramfileChunkDataSize * cells.length ∨ last = ByteArr.zero 32) (hfuel : n ≤ fuel) :
    readChunks assets fuel n first acc = .ok (acc ++ (stored Asset.content cells).take n) := by
  induction cells generalizing first n fuel acc with
  | nil =>
    obtain rfl : first = last := h
    have hend : n = 0 ∨ first = ByteArr.zero 32 := by simpa using hn
    cases fuel <;> simp [readChunks, hend, stored]
  | cons cell rest ih =>
    obtain ⟨hkey, hne, hcell, hrest⟩ := h
    cases fuel with
    | zero =>
      obtain rfl : n = 0 := by omega
      simp [readChunks]
    | succ fuel =>
      by_cases hzero : n = 0
      · simp [readChunks, hzero]
      · have hsize : ramfileChunkDataSize = 178 := rfl
        rw [List.length_cons, hsize] at hn
        have hmore := @ih (nextChunk cell.2.content) (n - min n 178) fuel (acc ++ cell.2.content.bytes.take (min n 178))
          hrest (hn.imp_left fun hn => by rw [hsize]; omega) (by omega)
        simp only [readChunks, hzero, hne, or_self, if_false, hcell]
        refine hmore.trans ?_
        rw [stored_cons, List.take_append, payload_length, payload, List.take_take, hsize, List.append_assoc,
          show n - min n 178 = n - 178 by omega]

/-! ### Replies -/

namespace PendingRpc

variable {p : PendingRpc}

/-- The walk of a reply ends at this key: there is no chunk, or none the caller may write. -/
def Stops (p : PendingRpc) (assets : FMap Hash Asset) (key : Hash) : Prop :=
  key = ByteArr.zero 32 ∨ ∀ chunk, assets.lookup key = some chunk → p.writeAuth chunk ≠ .ok

/-- A file whose chunks are distinct, apart from the head and writable, up to where the walk of a reply ends. -/
structure Writable (p : PendingRpc) (assets : FMap Hash Asset) (first : Hash) (cells : List (Hash × Asset))
    (last : Hash) :
    Prop where
  linked : Linked Asset.content assets.lookup first cells last
  distinct : (cells.map Prod.fst).Nodup
  auth : ∀ cell ∈ cells, p.writeAuth cell.2 = .ok
  stops : p.Stops assets last

/-- The cells with the reply in them. -/
def landed : Bytes → List (Hash × Asset) → List (Hash × Asset)
  | _, [] => []
  | body, cell :: rest =>
    if body = [] then cell :: rest
    else
      (cell.1, { cell.2 with content := buildRamfileChunk body (nextChunk cell.2.content) }) ::
        landed (body.drop ramfileChunkDataSize) rest

theorem landed_nil (cells : List (Hash × Asset)) : landed [] cells = cells := by
  cases cells with
  | nil => rfl
  | cons cell rest => simp [landed]

/-- Only payloads change. -/
theorem landed_same (body : Bytes) (cells : List (Hash × Asset)) :
    List.Forall₂ (fun cell new : Hash × Asset => new.1 = cell.1 ∧ nextChunk new.2.content = nextChunk cell.2.content ∧
      new.2 = { cell.2 with content := new.2.content }) cells (landed body cells) := by
  induction cells generalizing body with
  | nil => exact .nil
  | cons cell rest ih =>
    by_cases hbody : body = []
    · rw [hbody, landed_nil]
      exact List.forall₂_same.mpr fun _ _ => ⟨rfl, rfl, rfl⟩
    · simp only [landed, hbody, if_false]
      exact .cons ⟨rfl, nextChunk_build _ _, rfl⟩ (ih _)

theorem landed_keys (body : Bytes) (cells : List (Hash × Asset)) :
    (landed body cells).map Prod.fst = cells.map Prod.fst := by
  have h := landed_same body cells
  generalize landed body cells = new at h
  induction h with
  | nil => rfl
  | cons hcell _ ih => rw [List.map_cons, List.map_cons, hcell.1, ih]

/-- The reply reads back from the cells, as far as they reach. -/
theorem stored_landed (body : Bytes) (cells : List (Hash × Asset)) :
    (stored Asset.content (landed body cells)).take (min body.length (ramfileChunkDataSize * cells.length)) =
      body.take (ramfileChunkDataSize * cells.length) := by
  induction cells generalizing body with
  | nil => simp
  | cons cell rest ih =>
    by_cases hbody : body = []
    · simp [hbody]
    · have hrest := ih (body.drop ramfileChunkDataSize)
      have hcap : ramfileChunkDataSize * (cell :: rest).length =
          ramfileChunkDataSize + ramfileChunkDataSize * rest.length := by
        rw [List.length_cons]
        ring
      simp only [landed, hbody, if_false]
      rw [stored_cons, payload_build, hcap]
      rw [List.length_drop] at hrest
      generalize ramfileChunkDataSize = w at *
      generalize w * rest.length = cap at *
      have hfirst : (padTo w body).take (min body.length (w + cap)) = body.take w := by
        rw [padTo_eq]
        by_cases hlong : w ≤ body.length
        · rw [Nat.sub_eq_zero_of_le hlong, List.replicate_zero, List.append_nil, List.take_take]
          congr 1
          omega
        · have hbody : body.take w = body := List.take_of_length_le (by omega)
          rw [hbody, show min body.length (w + cap) = body.length by omega, List.take_left]
      rw [List.take_append, padTo_length, hfirst, show min body.length (w + cap) - w =
        min (body.length - w) cap by omega,
        hrest, List.take_add]

/-- The walk writes the reply into the cells, and nothing else. -/
theorem writeChunks_spec {assets : FMap Hash Asset} {first last : Hash} {cells : List (Hash × Asset)}
    (h : p.Writable assets first cells last) {body : Bytes} {fuel : Nat} (hfuel : body.length ≤ fuel) :
    Linked Asset.content (p.writeChunks fuel first body assets).1.lookup first (landed body cells) last ∧
      (∀ key, key ∉ cells.map Prod.fst → (p.writeChunks fuel first body assets).1.lookup key = assets.lookup key) ∧
      (p.writeChunks fuel first body assets).2 = body.drop (ramfileChunkDataSize * cells.length) := by
  induction cells generalizing first body fuel assets with
  | nil =>
    obtain rfl : first = last := h.linked
    have hend : p.writeChunks fuel first body assets = (assets, body) := by
      cases fuel with
      | zero => rfl
      | succ fuel =>
        rw [writeChunks]
        split_ifs with hdone
        · rfl
        · cases hchunk : assets.lookup first with
          | none => rfl
          | some chunk =>
            rcases h.stops with hzero | hno
            · exact absurd (.inr hzero) hdone
            · exact if_pos (hno chunk hchunk)
    rw [hend]
    exact ⟨rfl, fun _ _ => rfl, by simp⟩
  | cons cell rest ih =>
    obtain ⟨hkey, hne, hcell, hrest⟩ := h.linked
    obtain ⟨hfresh, hdistinct⟩ := List.nodup_cons.mp h.distinct
    by_cases hbody : body = []
    · subst hbody
      have hend : p.writeChunks fuel first [] assets = (assets, []) := by
        cases fuel <;> simp [writeChunks]
      rw [hend, landed_nil]
      exact ⟨h.linked, fun _ _ => rfl, by simp⟩
    · obtain ⟨fuel, rfl⟩ : ∃ n, fuel = n + 1 :=
        Nat.exists_eq_succ_of_ne_zero (by have := List.length_pos_iff.mpr hbody; omega)
      have hauth := h.auth cell (by simp)
      generalize hnew : ({ cell.2 with content := buildRamfileChunk body (nextChunk cell.2.content) } : Asset) = new
      have hstep : p.writeChunks (fuel + 1) first body assets =
          p.writeChunks fuel (nextChunk cell.2.content) (body.drop ramfileChunkDataSize) (assets.insert first new) := by
        have hnext : cell.2.content.slice ramfileNextOffset 32 = nextChunk cell.2.content := rfl
        rw [writeChunks, if_neg (by simp [hbody, hne])]
        simp only [hcell, hauth, ne_eq, not_true_eq_false, if_false, hnext, hnew]
      have hother : ∀ key, key ≠ first → (assets.insert first new).lookup key = assets.lookup key := fun key hne =>
        Finmap.lookup_insert_of_ne _ hne
      have hwritable : p.Writable (assets.insert first new) (nextChunk cell.2.content) rest last := by
        refine ⟨hrest.congr fun other hmem => hother _ ?_, hdistinct,
          fun other hmem => h.auth other (by simp [hmem]), ?_⟩
        · rintro heq
          exact hfresh (hkey ▸ heq ▸ List.mem_map_of_mem hmem)
        · rcases h.stops with hzero | hno
          · exact .inl hzero
          · refine .inr fun chunk hchunk => hno chunk ?_
            rw [← hother last ?_, hchunk]
            rintro rfl
            exact hno cell.2 hcell hauth
      have hlen : (body.drop ramfileChunkDataSize).length ≤ fuel := by
        rw [List.length_drop]
        have : ramfileChunkDataSize = 178 := rfl
        omega
      obtain ⟨hlinked, hframe, hleft⟩ := ih hwritable hlen
      rw [hstep]
      generalize p.writeChunks fuel (nextChunk cell.2.content) (body.drop ramfileChunkDataSize)
        (assets.insert first new) =
        r at hlinked hframe hleft
      refine ⟨?_, ?_, ?_⟩
      · simp only [landed, hbody, if_false, hnew]
        refine ⟨hkey, hne, ?_, ?_⟩
        · exact (hframe first (hkey ▸ hfresh)).trans (Finmap.lookup_insert _)
        · subst hnew
          rw [nextChunk_build]
          exact hlinked
      · intro key hmem
        rw [List.map_cons, List.mem_cons, not_or] at hmem
        rw [hframe key hmem.2, hother key (hkey ▸ hmem.1)]
      · rw [hleft, List.drop_drop, List.length_cons]
        congr 1
        ring

end PendingRpc

open PendingRpc

/-- A reply without an error lands in the file: the followup is told status zero and how much fits into the writable
chunks, the file then reads as that part of the reply, and only payloads in the chain and the size, hash and
modification time of the head change. -/
theorem completeRpc_lands (s : CesServer) (p : PendingRpc) (now : UInt64) (body : Bytes) (hbody : body.length < 2 ^ 32)
    {head : Asset} (hhead : s.assets.lookup p.fileHeadKey = some head) (hauth : p.writeAuth head = .ok)
    {header : RamfileHeader} (hparse : parseRamfileHeader head.content = some header) {cells : List (Hash × Asset)}
    {last : Hash} (hchain : p.Writable s.assets header.firstChunk cells last)
    (hapart : p.fileHeadKey ∉ cells.map Prod.fst) (maxBytes : Nat) (hmax : body.length ≤ maxBytes) :
    let written := min body.length (ramfileChunkDataSize * cells.length)
    let after := completeRpc s p now .ok body
    after = ({ s with rpcPendingCount := s.rpcPendingCount - 1, assets := after.assets }.scheduleRun
        (p.followup (p.followupInput .ok body.length written)) 0).2 ∧
      readFileChunkBytes after.assets p.fileHeadKey maxBytes = .ok (body.take written) ∧
      (∃ cells', Linked Asset.content after.assets.lookup header.firstChunk cells' last ∧
        List.Forall₂ (fun cell new : Hash × Asset => new.1 = cell.1 ∧
          nextChunk new.2.content = nextChunk cell.2.content ∧ new.2 = { cell.2 with content := new.2.content })
          cells cells') ∧
      (∃ head', after.assets.lookup p.fileHeadKey = some head' ∧ head' = { head with content := head'.content } ∧
        UInt64.ofNat (beNat (head'.content.slice 41 8).bytes) = UInt64.ofNat (beNat (head.content.slice 41 8).bytes) ∧
        head'.content.slice 57 121 = head.content.slice 57 121 ∧
        parseRamfileHeader head'.content = some ⟨written, header.firstChunk⟩) ∧
      (∀ key, key ∉ p.fileHeadKey :: cells.map Prod.fst → after.assets.lookup key = s.assets.lookup key) ∧
      (∀ key asset, s.assets.lookup key = some asset → p.writeAuth asset ≠ .ok →
        after.assets.lookup key = some asset) := by
  intro written after
  obtain ⟨hlinked, hframe, hleft⟩ := writeChunks_spec hchain (le_refl body.length)
  generalize hwrite : p.writeChunks body.length header.firstChunk body s.assets = walk at hlinked hframe hleft
  have hwritten : body.length - walk.2.length = written := by
    rw [hleft, List.length_drop]
    omega
  generalize hnew : ({ head with content := newHead head.content header.firstChunk written now } : Asset) = new
  have hreply : p.writeReply s now body = (.ok, written, walk.1.insert p.fileHeadKey new) := by
    have hkept : walk.1.lookup p.fileHeadKey = some head := (hframe _ hapart).trans hhead
    simp only [writeReply, hhead, hauth, hparse, hwrite, hwritten, ne_eq, not_true_eq_false, if_false]
    rw [FMap.alter_of_some _ hkept, hnew]
    rfl
  have hassets : after.assets = walk.1.insert p.fileHeadKey new := by
    have hcells := cells_scheduleRun
      { s with rpcPendingCount := s.rpcPendingCount - 1, assets := (p.writeReply s now body).2.2 }
      (p.followup (p.followupInput (p.writeReply s now body).1 body.length (p.writeReply s now body).2.1)) 0
    exact (congrArg Cells.assets hcells).trans (by rw [hreply]; rfl)
  have hlookup : ∀ key, after.assets.lookup key = if key = p.fileHeadKey then some new else walk.1.lookup key := by
    intro key
    rw [hassets, FMap.lookup_insert_eq]
  have hchunks : Linked Asset.content after.assets.lookup header.firstChunk (landed body cells) last := by
    refine hlinked.congr fun cell hcell => ?_
    rw [hlookup, if_neg]
    rintro heq
    exact hapart (landed_keys body cells ▸ heq ▸ List.mem_map_of_mem hcell)
  have hsmall : written % 2 ^ 64 = written := Nat.mod_eq_of_lt (by omega)
  obtain ⟨hheader, -, hcreated, hmeta⟩ := buildRamfileHeader_fields written (ByteArr.zero 32)
    (UInt64.ofNat (beNat (head.content.slice 41 8).bytes)) now (head.content.slice 57 121) header.firstChunk
  rw [hsmall] at hheader
  refine ⟨?_, ?_, ⟨_, hchunks, landed_same body cells⟩, ⟨new, ?_, ?_, ?_, ?_, ?_⟩, ?_, ?_⟩
  · rw [hassets]
    change completeRpc s p now .ok body = _
    simp only [completeRpc, if_true, hreply]
  · have hread : after.assets.lookup p.fileHeadKey = some new := by rw [hlookup, if_pos rfl]
    have hhere : parseRamfileHeader new.content = some ⟨written, header.firstChunk⟩ := by
      subst hnew
      exact hheader
    simp only [readFileChunkBytes, hread, hhere]
    rw [if_neg (by omega), readChunks_linked hchunks (.inl ?_) (le_refl _), List.nil_append]
    · rw [stored_landed, List.take_eq_take_min, Nat.min_comm]
    · rw [← (landed_same body cells).length_eq]
      exact Nat.min_le_right _ _
  · rw [hlookup, if_pos rfl]
  · subst hnew
    rfl
  · subst hnew
    exact hcreated
  · subst hnew
    exact hmeta
  · subst hnew
    exact hheader
  · intro key hkey
    rw [List.mem_cons, not_or] at hkey
    rw [hlookup, if_neg hkey.1, hframe key hkey.2]
  · intro key asset hasset hno
    have hkey : key ∉ cells.map Prod.fst := by
      intro hmem
      obtain ⟨cell, hcell, rfl⟩ := List.mem_map.mp hmem
      have hfound : s.assets.lookup cell.1 = some cell.2 := hchain.linked.lookup hcell
      rw [hasset] at hfound
      exact hno (Option.some.inj hfound ▸ hchain.auth cell hcell)
    rw [hlookup, if_neg ?_, hframe key hkey, hasset]
    rintro rfl
    rw [hhead] at hasset
    exact hno (Option.some.inj hasset ▸ hauth)

def mailFile : Hash := ByteArr.ofList 32 [1]

def mailChunk : Hash := ByteArr.ofList 32 [2]

def mailOwner : HashPrefix := ByteArr.ofList 8 [3]

def mailHead : Asset :=
  ⟨mailOwner, buildRamfileHeader 0 (ByteArr.zero 32) 0 0 (ByteArr.zero 121) mailChunk, 0, 0⟩

def mailLast : Hash := ByteArr.ofList 32 [4]

/-- A chunk of the file, before the one with the given key. -/
def mailCell (next : Hash) : Asset := ⟨mailOwner, buildRamfileChunk [] next, 0, 0⟩

/-- A server with a file of two chunks. -/
def mailServer : CesServer :=
  .load .stock (ByteArr.zero 32) ∅ (((Finmap.insert mailFile mailHead ∅).insert mailChunk (mailCell mailLast)).insert
    mailLast (mailCell (ByteArr.zero 32))) ∅

/-- A request of the file's owner that is to be answered into it. -/
def mailRequest : PendingRpc :=
  ⟨[], 1, mailFile, ByteArr.zero 32, ByteArr.zero 32, mailOwner, mailOwner, 0, 0, 0, []⟩

theorem completeRpc_lands_two_chunks :
    readFileChunkBytes (completeRpc mailServer mailRequest 9 .ok (List.replicate 200 7)).assets mailFile 200 =
      .ok (List.replicate 200 7) := by
  have hhead : mailServer.assets.lookup mailFile = some mailHead := by
    have hchunk : mailFile ≠ mailChunk := by decide
    have hlast : mailFile ≠ mailLast := by decide
    simp [mailServer, CesServer.load, hchunk, hlast]
  have hcells : mailServer.assets.lookup mailChunk = some (mailCell mailLast) ∧
      mailServer.assets.lookup mailLast = some (mailCell (ByteArr.zero 32)) := by
    have hne : mailChunk ≠ mailLast := by decide
    simp [mailServer, CesServer.load, hne]
  have hnext : ∀ next, nextChunk (mailCell next).content = next := fun next => nextChunk_build _ _
  have hchain : mailRequest.Writable mailServer.assets mailChunk
      [(mailChunk, mailCell mailLast), (mailLast, mailCell (ByteArr.zero 32))] (ByteArr.zero 32) := by
    refine ⟨⟨rfl, by decide, hcells.1, hnext _, ?_⟩, by decide, ?_, .inl rfl⟩
    · rw [hnext]
      exact ⟨by decide, hcells.2, hnext _⟩
    · intro cell hcell
      rcases List.mem_pair.mp hcell with rfl | rfl <;> decide
  have hlength : (List.replicate 200 (7 : UInt8)).length = 200 := List.length_replicate
  have hread := (completeRpc_lands mailServer mailRequest 9 (List.replicate 200 7) (by omega) hhead (by decide)
    (buildRamfileHeader_fields 0 (ByteArr.zero 32) 0 0 (ByteArr.zero 121) mailChunk).1 hchain (by decide) 200
    hlength.le).2.1
  rwa [hlength, List.take_of_length_le (by rw [hlength]; decide)] at hread

end Ces
