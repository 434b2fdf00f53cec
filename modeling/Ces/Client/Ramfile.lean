import Ces.Ledger.Ramfile

/-!
# Files in RAM, from the client

The readers of `ramfilestore.cpp`. They ask `query` for the assets; what it answers is up to the server, and may be
hostile.

`ramfileGet` and the server's `readFileChunkBytes` stop at a zero pointer without an error. What they return is complete
exactly when no chain from the first chunk ends before the size the head declares (`NoShortChain`).
-/

namespace Ces

open Ces.Lib

section read

variable (query : Hash → Except Rc AssetData) (sha256 : Bytes → Hash)

/-- The content of a head, and its parsed fields. -/
def readHead {m : Type → Type} [Monad m] [MonadExcept Rc m] (query : Hash → m AssetData) (headKey : Hash) :
    m (AssetData × RamfileHeader) := do
  let content ← query headKey
  match parseRamfileHeader content with
  | none => throw .internal
  | some header => pure (content, header)

/-- `touchHead`: the head with a new size, hash, first chunk and modification time. -/
def touchedHead (head : AssetData) (fileSize : Nat) (contentHash firstChunk : Hash) (now : UInt64) : AssetData :=
  buildRamfileHeader fileSize contentHash (UInt64.ofNat (beNat (head.slice 41 8).bytes)) now
    (head.slice 57 121) firstChunk

/-- The walk of `ramfileGet`. A chunk adds a byte at least, so the size bounds it. -/
def getChunks (fileSize : Nat) : Nat → List Hash → Hash → Bytes → Except Rc Bytes
  | 0, _, _, out => .ok out
  | fuel + 1, visited, nextKey, out =>
    if nextKey = ByteArr.zero 32 ∨ fileSize ≤ out.length then .ok out
    else if nextKey ∈ visited then .error .internal
    else
      match query nextKey with
      | .error rc => .error rc
      | .ok content =>
        let take := min (fileSize - out.length) ramfileChunkDataSize
        getChunks fileSize fuel (nextKey :: visited) (nextChunk content) (out ++ content.bytes.take take)

/-- What `ramfileGet` returns. -/
structure RamfileData where
  head : AssetData
  header : RamfileHeader
  data : Bytes
  hashMismatch : Bool

def ramfileGet (headKey : Hash) : Except Rc RamfileData := do
  let (head, header) ← readHead query headKey
  if header.fileSize = 0 then .ok ⟨head, header, [], false⟩
  else
    let data ← getChunks query header.fileSize header.fileSize [] header.firstChunk []
    .ok ⟨head, header, data, sha256 data != head.slice 9 32⟩

/-- The head that `ramfileRehash` writes. -/
def ramfileRehash (now : UInt64) (headKey : Hash) : Except Rc AssetData := do
  let file ← ramfileGet query sha256 headKey
  .ok (touchedHead file.head file.header.fileSize (sha256 file.data) file.header.firstChunk now)

/-- The walk of `ramfileScan`; it stops at a zero pointer or a cycle, so `fuel` is one more than the chunks. -/
def scanChunks : Nat → List Hash → Hash → Except Rc (List Hash)
  | 0, _, _ => .error .internal
  | fuel + 1, visited, nextKey =>
    if nextKey = ByteArr.zero 32 then .ok []
    else if nextKey ∈ visited then .error .internal
    else do
      let content ← query nextKey
      let rest ← scanChunks fuel (nextKey :: visited) (nextChunk content)
      .ok (nextKey :: rest)

def ramfileScan (fuel : Nat) (headKey : Hash) : Except Rc (List Hash) := do
  let (_, header) ← readHead query headKey
  let keys ← scanChunks query fuel [] header.firstChunk
  .ok (headKey :: keys)

/-- Read from the chunks, in the first one from `startByte` on. -/
def readFrom : List Hash → Nat → Nat → Except Rc Bytes
  | [], _, _ => .ok []
  | key :: keys, startByte, remaining =>
    if remaining = 0 then .ok []
    else do
      let content ← query key
      let take := min (ramfileChunkDataSize - startByte) remaining
      let rest ← readFrom keys 0 (remaining - take)
      .ok ((content.bytes.drop startByte).take take ++ rest)

def ramfileRead (keys : List Hash) (offset length : Nat) : Except Rc Bytes :=
  match keys with
  | [] => .error .internal
  | headKey :: chunks => do
    let (_, header) ← readHead query headKey
    if header.fileSize ≤ offset then .ok []
    else
      readFrom query (chunks.drop (offset / ramfileChunkDataSize)) (offset % ramfileChunkDataSize)
        (min length (header.fileSize - offset))

end read

/-! ### Complete reads -/

section complete

variable {C : Type} (content : C → AssetData) (q : Hash → Option C)

/-- No chain from the first chunk of the file ends before the size the head declares. -/
def NoShortChain (headKey : Hash) : Prop :=
  ∀ head header cells, q headKey = some head → parseRamfileHeader (content head) = some header →
    Linked content q header.firstChunk cells (ByteArr.zero 32) → header.fileSize ≤ ramfileChunkDataSize * cells.length

variable {content q} {headKey : Hash} {head : C} {header : RamfileHeader}

/-- A read that returns the declared size or all of a chain that ends before it, and all of every chain that ends, is
complete exactly when there is no short chain. -/
theorem complete_iff_noShortChain (hhead : q headKey = some head)
    (hparse : parseRamfileHeader (content head) = some header) {r : Except Rc Bytes}
    (hshort : ∀ data, r = .ok data → data.length = header.fileSize ∨
      ∃ cells, Linked content q header.firstChunk cells (ByteArr.zero 32) ∧
        data.length = ramfileChunkDataSize * cells.length ∧ data.length < header.fileSize)
    (hends : ∀ cells, Linked content q header.firstChunk cells (ByteArr.zero 32) →
      r = .ok ((stored content cells).take header.fileSize)) :
    (∀ data, r = .ok data → data.length = header.fileSize) ↔ NoShortChain content q headKey := by
  constructor
  · intro h head' header' cells hhead' hparse' hlinked
    obtain rfl : head = head' := Option.some.inj (hhead.symm.trans hhead')
    obtain rfl : header = header' := Option.some.inj (hparse.symm.trans hparse')
    have hlen := h _ (hends cells hlinked)
    rw [List.length_take, stored_length] at hlen
    omega
  · intro h data hdata
    rcases hshort data hdata with hlen | ⟨cells, hlinked, hlen, hlt⟩
    · exact hlen
    · have hle := h head header cells hhead hparse hlinked
      omega

end complete

theorem ok_of_toOption {α : Type} {r : Except Rc α} {a : α} (h : r.toOption = some a) : r = .ok a := by
  cases r with
  | error rc => simp [Except.toOption] at h
  | ok b => rw [Option.some.inj h]

section walks

variable {query : Hash → Except Rc AssetData} {fileSize : Nat}

theorem getChunks_linked {first last : Hash} {cells : List (Hash × AssetData)} {fuel : Nat} {visited : List Hash}
    {out : Bytes} (h : Linked id (fun key => (query key).toOption) first cells last)
    (hdistinct : (cells.map Prod.fst).Nodup) (hnew : ∀ key ∈ visited, key ∉ cells.map Prod.fst)
    (hn : fileSize - out.length ≤ ramfileChunkDataSize * cells.length ∨ last = ByteArr.zero 32)
    (hfuel : fileSize - out.length ≤ fuel) :
    getChunks query fileSize fuel visited first out = .ok (out ++ (stored id cells).take (fileSize - out.length)) := by
  have hsize : ramfileChunkDataSize = 178 := rfl
  induction cells generalizing first fuel visited out with
  | nil =>
    obtain rfl : first = last := h
    have hend : first = ByteArr.zero 32 ∨ fileSize ≤ out.length := by
      rcases hn with hn | hzero
      · exact .inr (by simpa [Nat.sub_eq_zero_iff_le] using hn)
      · exact .inl hzero
    cases fuel <;> simp [getChunks, hend, stored]
  | cons cell rest ih =>
    obtain ⟨hkey, hne, hcell, hrest⟩ := h
    obtain ⟨hfresh, hdistinct⟩ := List.nodup_cons.mp hdistinct
    by_cases hfull : fileSize ≤ out.length
    · have hnone : fileSize - out.length = 0 := by omega
      cases fuel <;> simp [getChunks, hfull, hnone]
    · obtain ⟨fuel, rfl⟩ : ∃ n, fuel = n + 1 := Nat.exists_eq_succ_of_ne_zero (by omega)
      have hquery := ok_of_toOption hcell
      have hvisited : first ∉ visited := fun hmem => hnew first hmem (by simp [hkey])
      have hlen : (out ++ cell.2.bytes.take (min (fileSize - out.length) 178)).length =
          out.length + min (fileSize - out.length) 178 := by
        rw [List.length_append, List.length_take, cell.2.size_eq]
        omega
      have hmore := @ih (nextChunk cell.2) fuel (first :: visited)
        (out ++ cell.2.bytes.take (min (fileSize - out.length) 178)) hrest hdistinct
        (by
          intro key hmem
          rcases List.mem_cons.mp hmem with rfl | hmem
          · exact hkey ▸ hfresh
          · exact fun hin => hnew key hmem (by simp [hin]))
        (hn.imp_left fun hn => by rw [List.length_cons, hsize] at hn; rw [hsize]; omega) (by omega)
      simp only [getChunks, hne, hfull, or_self, if_false, hvisited, hquery]
      refine hmore.trans ?_
      rw [stored_cons, List.take_append, payload_length, id_eq, payload, List.take_take, hsize, List.append_assoc, hlen,
        show fileSize - (out.length + min (fileSize - out.length) 178) = fileSize - out.length - 178 by omega]

/-- What the walk returns is full, or all of a chain that ends early. -/
theorem getChunks_length {fuel : Nat} {visited : List Hash} {key : Hash} {out data : Bytes}
    (hout : out.length ≤ fileSize)
    (hfuel : fileSize - out.length ≤ fuel) (h : getChunks query fileSize fuel visited key out = .ok data) :
    data.length = fileSize ∨ ∃ cells, Linked id (fun key => (query key).toOption) key cells (ByteArr.zero 32) ∧
      data.length = out.length + ramfileChunkDataSize * cells.length ∧ data.length < fileSize := by
  have hsize : ramfileChunkDataSize = 178 := rfl
  induction fuel generalizing visited key out with
  | zero =>
    obtain rfl := Except.ok.inj h
    exact .inl (by omega)
  | succ fuel ih =>
    simp only [getChunks] at h
    split_ifs at h with hend hcycle
    · obtain rfl := Except.ok.inj h
      by_cases hfull : out.length = fileSize
      · exact .inl hfull
      · obtain hzero : key = ByteArr.zero 32 := hend.resolve_right (by omega)
        exact .inr ⟨[], hzero, by simp, by omega⟩
    · push Not at hend
      cases hq : query key with
      | error rc => simp [hq] at h
      | ok content =>
        simp only [hq] at h
        have hlen : (out ++ content.bytes.take (min (fileSize - out.length) ramfileChunkDataSize)).length =
            out.length + min (fileSize - out.length) 178 := by
          rw [List.length_append, List.length_take, content.size_eq]
          omega
        rcases ih (by omega) (by omega) h with hfull | ⟨cells, hlinked, hshort, hlt⟩
        · exact .inl hfull
        · refine .inr ⟨(key, content) :: cells, ⟨rfl, hend.1, by simp [hq, Except.toOption], hlinked⟩, ?_, hlt⟩
          rw [hlen, hsize] at hshort
          rw [List.length_cons, hsize]
          omega

theorem readChunks_length {assets : FMap Hash Asset} {n fuel : Nat} {key : Hash} {acc data : Bytes} (hfuel : n ≤ fuel)
    (h : readChunks assets fuel n key acc = .ok data) :
    data.length = acc.length + n ∨ ∃ cells, Linked Asset.content assets.lookup key cells (ByteArr.zero 32) ∧
      data.length = acc.length + ramfileChunkDataSize * cells.length ∧ data.length < acc.length + n := by
  have hsize : ramfileChunkDataSize = 178 := rfl
  induction fuel generalizing n key acc with
  | zero =>
    obtain rfl := Except.ok.inj h
    exact .inl (by omega)
  | succ fuel ih =>
    simp only [readChunks] at h
    split_ifs at h with hend
    · obtain rfl := Except.ok.inj h
      by_cases hfull : n = 0
      · exact .inl (by omega)
      · exact .inr ⟨[], hend.resolve_left hfull, by simp, by omega⟩
    · push Not at hend
      cases hq : assets.lookup key with
      | none => simp [hq] at h
      | some chunk =>
        simp only [hq] at h
        have hlen : (acc ++ chunk.content.bytes.take (min n 178)).length = acc.length + min n 178 := by
          rw [List.length_append, List.length_take, chunk.content.size_eq]
          omega
        rcases ih (by omega) h with hfull | ⟨cells, hlinked, hshort, hlt⟩
        · exact .inl (by omega)
        · refine .inr ⟨(key, chunk) :: cells, ⟨rfl, hend.2, hq, hlinked⟩, ?_, by omega⟩
          rw [hsize] at hshort
          rw [List.length_cons, hsize]
          omega

end walks

section get

variable {query : Hash → Except Rc AssetData} {sha256 : Bytes → Hash} {headKey : Hash} {head : AssetData}
  {header : RamfileHeader}

theorem readHead_of_parse (hhead : query headKey = .ok head) (hparse : parseRamfileHeader head = some header) :
    readHead query headKey = .ok (head, header) := by
  simp only [readHead, hhead, bind, Except.bind, hparse]
  rfl

theorem readHead_ok {r : AssetData × RamfileHeader} (h : readHead query headKey = .ok r) :
    query headKey = .ok r.1 ∧ parseRamfileHeader r.1 = some r.2 := by
  simp only [readHead, bind, Except.bind] at h
  cases hquery : query headKey with
  | error rc => simp [hquery] at h
  | ok content =>
    cases hparse : parseRamfileHeader content with
    | none => simp [hquery, hparse, throw, throwThe, MonadExceptOf.throw] at h
    | some header =>
      simp only [hquery, hparse, pure, Except.pure, Except.ok.injEq] at h
      subst h
      exact ⟨rfl, hparse⟩

/-- `ramfileGet` is its walk, with the comparison of the hashes. -/
theorem ramfileGet_eq (hhead : query headKey = .ok head) (hparse : parseRamfileHeader head = some header) :
    ramfileGet query sha256 headKey =
      (getChunks query header.fileSize header.fileSize [] header.firstChunk []).map fun data =>
        ⟨head, header, data, header.fileSize != 0 && sha256 data != head.slice 9 32⟩ := by
  simp only [ramfileGet, readHead_of_parse hhead hparse, bind, Except.bind]
  by_cases hzero : header.fileSize = 0
  · simp [hzero, getChunks, Except.map]
  · cases hget : getChunks query header.fileSize header.fileSize [] header.firstChunk [] <;>
      simp [hzero, Except.map]

theorem ramfileGet_ok {file : RamfileData} (h : ramfileGet query sha256 headKey = .ok file) :
    query headKey = .ok file.head ∧ parseRamfileHeader file.head = some file.header ∧
      getChunks query file.header.fileSize file.header.fileSize [] file.header.firstChunk [] = .ok file.data := by
  cases hread : readHead query headKey with
  | error rc => simp [ramfileGet, hread, bind, Except.bind] at h
  | ok r =>
    obtain ⟨hhead, hparse⟩ := readHead_ok hread
    rw [ramfileGet_eq hhead hparse] at h
    cases hget : getChunks query r.2.fileSize r.2.fileSize [] r.2.firstChunk [] with
    | error rc => simp [hget, Except.map] at h
    | ok data =>
      simp only [hget, Except.map, Except.ok.injEq] at h
      subst h
      exact ⟨hhead, hparse, hget⟩

theorem getChunks_complete_iff (hhead : query headKey = .ok head) (hparse : parseRamfileHeader head = some header) :
    (∀ data, getChunks query header.fileSize header.fileSize [] header.firstChunk [] = .ok data →
      data.length = header.fileSize) ↔ NoShortChain id (fun key => (query key).toOption) headKey := by
  refine complete_iff_noShortChain (by simp [hhead, Except.toOption]) hparse ?_ ?_
  · intro data hdata
    simpa using getChunks_length (Nat.zero_le _) (Nat.sub_le _ _) hdata
  · intro cells hlinked
    exact getChunks_linked hlinked hlinked.nodup (by simp) (.inr rfl) (Nat.sub_le _ _)

theorem ramfileGet_complete_iff :
    (∀ file, ramfileGet query sha256 headKey = .ok file → file.data.length = file.header.fileSize) ↔
      NoShortChain id (fun key => (query key).toOption) headKey := by
  constructor
  · intro h head header cells hhead hparse
    have hquery := ok_of_toOption hhead
    have hwalk := (getChunks_complete_iff hquery hparse).mp fun data hdata =>
      h ⟨head, header, data, _⟩ (by rw [ramfileGet_eq hquery hparse, hdata]; rfl)
    exact hwalk head header cells hhead hparse
  · intro h file hfile
    obtain ⟨hhead, hparse, hget⟩ := ramfileGet_ok hfile
    exact (getChunks_complete_iff hhead hparse).mpr h _ hget

/-- `readFileChunkBytes` is its walk, on a head that it takes. -/
theorem readFileChunkBytes_complete_iff {assets : FMap Hash Asset} {asset : Asset} {maxBytes : Nat}
    (hhead : assets.lookup headKey = some asset) (hparse : parseRamfileHeader asset.content = some header)
    (hmax : header.fileSize ≤ maxBytes) :
    (∀ data, readFileChunkBytes assets headKey maxBytes = .ok data → data.length = header.fileSize) ↔
      NoShortChain Asset.content assets.lookup headKey := by
  have hwalk : readFileChunkBytes assets headKey maxBytes =
      readChunks assets header.fileSize header.fileSize header.firstChunk [] := by
    simp only [readFileChunkBytes, hhead, hparse]
    rw [if_neg (by omega)]
  rw [hwalk]
  refine complete_iff_noShortChain hhead hparse ?_ ?_
  · intro data hdata
    simpa using readChunks_length (le_refl _) hdata
  · intro cells hlinked
    exact readChunks_linked hlinked (.inr rfl) (le_refl _)

end get

/-- A read without an error is complete exactly when no chain from the first chunk ends too early: `ramfileGet` (and
so the bytes `ramfileRehash` hashes) against whatever the server answers, `readFileChunkBytes` on any assets. -/
theorem read_complete_iff (sha256 : Bytes → Hash) (headKey : Hash) :
    (∀ query : Hash → Except Rc AssetData,
      ((∀ file, ramfileGet query sha256 headKey = .ok file → file.data.length = file.header.fileSize) ↔
        NoShortChain id (fun key => (query key).toOption) headKey) ∧
      ∀ now head, ramfileRehash query sha256 now headKey = .ok head →
        ∃ file, ramfileGet query sha256 headKey = .ok file ∧ head.slice 9 32 = sha256 file.data ∧
          (file.data.length = file.header.fileSize ↔ NoShortChain id (fun key => (query key).toOption) headKey)) ∧
    ∀ (assets : FMap Hash Asset) (maxBytes : Nat),
      (∀ data, readFileChunkBytes assets headKey maxBytes = .ok data →
        ∀ head header, assets.lookup headKey = some head → parseRamfileHeader head.content = some header →
          data.length = header.fileSize) ↔
      ∀ head header, assets.lookup headKey = some head → parseRamfileHeader head.content = some header →
        header.fileSize ≤ maxBytes → NoShortChain Asset.content assets.lookup headKey := by
  refine ⟨fun query => ⟨ramfileGet_complete_iff, fun now head hhead => ?_⟩, fun assets maxBytes => ⟨?_, ?_⟩⟩
  · cases hfile : ramfileGet query sha256 headKey with
    | error rc => simp [ramfileRehash, hfile, bind, Except.bind] at hhead
    | ok file =>
      simp only [ramfileRehash, hfile, bind, Except.bind, Except.ok.injEq] at hhead
      have hiff := @ramfileGet_complete_iff query sha256 headKey
      rw [hfile] at hiff
      refine ⟨file, rfl, ?_, by simpa using hiff⟩
      rw [← hhead]
      exact (buildRamfileHeader_fields _ _ _ _ _ _).2.1
  · intro h head header hhead hparse hmax
    exact (readFileChunkBytes_complete_iff hhead hparse hmax).mp fun data hdata => h data hdata head header hhead hparse
  · intro h data hdata head header hhead hparse
    by_cases hmax : header.fileSize ≤ maxBytes
    · exact (readFileChunkBytes_complete_iff hhead hparse hmax).mpr (h head header hhead hparse hmax) data hdata
    · simp only [readFileChunkBytes, hhead, hparse] at hdata
      rw [if_pos (by omega)] at hdata
      exact absurd hdata (by simp)

/-- The head of a file that declares ten bytes and has no chunks. -/
def hollowHead : AssetData := buildRamfileHeader 10 (ByteArr.zero 32) 0 0 (ByteArr.zero 121) (ByteArr.zero 32)

/-- Both readers return nothing of the ten bytes, without an error, and the hash of nothing is written into the head. -/
theorem hollow_file_reads :
    (∃ file, ramfileGet (fun _ => .ok hollowHead) (fun _ => ByteArr.zero 32) mailFile = .ok file ∧ file.data = [] ∧
      file.header.fileSize = 10) ∧
    (ramfileRehash (fun _ => .ok hollowHead) (fun _ => ByteArr.zero 32) 1 mailFile).isOk ∧
    readFileChunkBytes (Finmap.insert mailFile ⟨mailOwner, hollowHead, 0, 0⟩ ∅) mailFile 100 = .ok [] := by
  have hparse : parseRamfileHeader hollowHead = some ⟨10, ByteArr.zero 32⟩ :=
    (buildRamfileHeader_fields 10 (ByteArr.zero 32) 0 0 (ByteArr.zero 121) (ByteArr.zero 32)).1
  have hget := @ramfileGet_eq (fun _ => .ok hollowHead) (fun _ => ByteArr.zero 32) mailFile hollowHead _ rfl hparse
  refine ⟨⟨_, hget, rfl, rfl⟩, ?_, ?_⟩
  · rw [ramfileRehash, hget]
    rfl
  · simp [readFileChunkBytes, hparse, readChunks]

end Ces
