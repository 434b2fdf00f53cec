import Ces.Client.RamStore

/-!
# A file in RAM as a byte array

`ramfileWrite` and `ramfileResize` on a file and its scan. The chunks may hold more bytes than the head declares: a
shrink moves only the declared size, and a later growth, or a write past the end, shows again what they hold. So a
file is not an array that grows by zeros (`stale_byte_returns`). It is an array with a fence (`FencedArray`): bytes
that stay when the fence moves over them, zeros where none were ever stored (`ramfile_is_fenced_array`).
-/

namespace Ces

open Ces.Lib

/-! ### Bytes -/

/-- The bytes with `data` laid over them from `off` on. -/
def splice (bytes : Bytes) (off : Nat) (data : Bytes) : Bytes :=
  bytes.take off ++ data ++ bytes.drop (off + data.length)

@[simp] theorem splice_nil (bytes : Bytes) (off : Nat) : splice bytes off [] = bytes := by
  simp [splice]

/-- In the second of two parts. -/
theorem splice_append (a b : Bytes) (off : Nat) (data : Bytes) :
    splice (a ++ b) (a.length + off) data = a ++ splice b off data := by
  simp only [splice, List.take_length_add_append, List.append_assoc, Nat.add_assoc, List.drop_length_add_append]

/-- Over the end of the first of two parts. -/
theorem splice_split {a : Bytes} (b : Bytes) {off : Nat} (data : Bytes) (hoff : off ≤ a.length) :
    splice (a ++ b) off data =
      splice a off (data.take (min (a.length - off) data.length)) ++
        splice b 0 (data.drop (min (a.length - off) data.length)) := by
  by_cases hshort : data.length ≤ a.length - off
  · rw [Nat.min_eq_right hshort, List.take_length, List.drop_length, splice_nil, splice, splice,
      List.take_append_of_le_length hoff, List.drop_append_of_le_length (by omega)]
    simp only [List.append_assoc]
  · rw [Nat.min_eq_left (by omega), splice, splice, splice, List.take_append_of_le_length hoff, List.drop_append,
      List.length_take, List.length_drop]
    have hnone : a.drop (off + data.length) = [] := List.drop_eq_nil_of_le (by omega)
    have hnone' : a.drop (off + min (a.length - off) data.length) = [] := List.drop_eq_nil_of_le (by omega)
    have hsame : off + data.length - a.length = 0 + (data.length - (a.length - off)) := by omega
    rw [hnone, hnone', hsame]
    simp only [List.nil_append, List.append_nil, List.take_zero, List.append_assoc]
    rw [← List.append_assoc (data.take _), List.take_append_drop]

section patch

variable (content : AssetData) {off : Nat} {data : Bytes}

theorem payload_patch (h : off + data.length ≤ ramfileChunkDataSize) :
    payload (content.patch off data) = splice (payload content) off data := by
  have hsize : ramfileChunkDataSize = 178 := rfl
  have hlen := content.size_eq
  rw [payload, ByteArr.bytes_patch _ (by omega), List.take_append, List.take_of_length_le (by simp; omega), splice,
    payload,
    List.take_take, Nat.min_eq_left (by omega), List.drop_take]
  congr 2
  rw [List.length_append, List.length_take]
  omega

theorem nextChunk_patch (h : off + data.length ≤ ramfileChunkDataSize) :
    nextChunk (content.patch off data) = nextChunk content := by
  have hsize : ramfileChunkDataSize = 178 := rfl
  have hnext : ramfileNextOffset = 178 := rfl
  have hlen := content.size_eq
  apply ByteArr.ext
  rw [nextChunk, nextChunk, ByteArr.bytes_slice _ (by omega), ByteArr.bytes_slice _ (by omega),
    ByteArr.bytes_patch _ (by omega), List.drop_append, List.drop_eq_nil_of_le (by simp; omega), List.nil_append,
    List.drop_drop]
  congr 2
  rw [List.length_append, List.length_take]
  omega

theorem payload_patch_next (next : Hash) : payload (content.patch ramfileNextOffset next.bytes) = payload content := by
  have hsize : ramfileChunkDataSize = 178 := rfl
  have hnext : ramfileNextOffset = 178 := rfl
  have hlen := content.size_eq
  have hnextLen := next.size_eq
  rw [payload, ByteArr.bytes_patch _ (by omega), List.append_assoc, List.take_append_of_le_length (by simp; omega),
    List.take_take]
  rfl

theorem nextChunk_patch_next (next : Hash) : nextChunk (content.patch ramfileNextOffset next.bytes) = next := by
  have hnext : ramfileNextOffset = 178 := rfl
  have hlen := content.size_eq
  have hnextLen := next.size_eq
  apply ByteArr.ext
  rw [nextChunk, ByteArr.bytes_slice _ (by omega), ByteArr.bytes_patch _ (by omega), List.append_assoc,
    List.drop_left' (by simp; omega), List.take_left' hnextLen]

end patch

/-- A write leaves the array as long as it has to be, with zeros in a gap. -/
def overwrite (array : Bytes) (off : Nat) (data : Bytes) : Bytes :=
  padTo off array ++ data ++ array.drop (off + data.length)

theorem padTo_append_replicate (held : Bytes) (n k : Nat) : padTo n (held ++ List.replicate k 0) = padTo n held := by
  rw [padTo_eq, padTo_eq, List.take_append, List.take_replicate, List.append_assoc, List.replicate_append_replicate,
    List.length_append, List.length_replicate]
  congr 2
  omega

theorem padTo_of_le {bytes : Bytes} {n : Nat} (h : n ≤ bytes.length) : padTo n bytes = bytes.take n := by
  rw [padTo_eq, Nat.sub_eq_zero_of_le h, List.replicate_zero, List.append_nil]

theorem splice_append_replicate {held : Bytes} {off k : Nat} {data : Bytes} (hoff : off ≤ held.length + k) :
    ∃ k', splice (held ++ List.replicate k 0) off data = overwrite held off data ++ List.replicate k' 0 := by
  refine ⟨k - (off + data.length - held.length), ?_⟩
  rw [splice, overwrite, ← padTo_of_le (by simpa using hoff), padTo_append_replicate, List.drop_append,
    List.drop_replicate]
  simp only [List.append_assoc]

/-! ### Writes -/

/-- Only payloads differ. -/
def SameLinks (cells cells' : List (Hash × AssetData)) : Prop :=
  List.Forall₂ (fun cell cell' => cell'.1 = cell.1 ∧ nextChunk cell'.2 = nextChunk cell.2) cells cells'

theorem SameLinks.refl (cells : List (Hash × AssetData)) : SameLinks cells cells :=
  List.forall₂_same.mpr fun _ _ => ⟨rfl, rfl⟩

theorem SameLinks.keys_eq {cells cells' : List (Hash × AssetData)} (h : SameLinks cells cells') :
    cells'.map Prod.fst = cells.map Prod.fst := by
  induction h with
  | nil => rfl
  | cons hcell _ ih => rw [List.map_cons, List.map_cons, hcell.1, ih]

theorem SameLinks.linked {cells cells' : List (Hash × AssetData)} (h : SameLinks cells cells')
    {q q' : Hash → Option AssetData} {first last : Hash} (hlinked : Linked id q first cells last)
    (hthere : ∀ cell ∈ cells', q' cell.1 = some cell.2) : Linked id q' first cells' last := by
  induction h generalizing first with
  | nil => exact hlinked
  | @cons cell cell' rest rest' hcell _ ih =>
    obtain ⟨hkey, hne, -, hrest⟩ := hlinked
    refine ⟨hkey.trans hcell.1.symm, hne, ?_, ?_⟩
    · rw [hkey, ← hcell.1]
      exact hthere cell' (by simp)
    · rw [id_eq, hcell.2]
      exact ih hrest fun other hother => hthere other (by simp [hother])

namespace RamWorld

variable {w : RamWorld} {c c' : RamClient} {cells : List (Hash × AssetData)}

/-- The write lands in the cells, as far as they reach, and nowhere else. -/
theorem yields_writeChunks {s written written' : Nat} {data : Bytes}
    (hcells : ∀ cell ∈ cells, readable c.assets cell.1 = some cell.2) (hdistinct : (cells.map Prod.fst).Nodup)
    (hs : s ≤ ramfileChunkDataSize)
    (h : Yields (w.writeChunks (cells.map Prod.fst) s data written) c (written', none) c') :
    ∃ cells', SameLinks cells cells' ∧ (∀ cell ∈ cells', readable c'.assets cell.1 = some cell.2) ∧
      (∀ key, key ∉ cells.map Prod.fst → c'.assets.lookup key = c.assets.lookup key) ∧
      stored id cells' = splice (stored id cells) s (data.take (ramfileChunkDataSize * cells.length - s)) ∧
      written' = written + min data.length (ramfileChunkDataSize * cells.length - s) := by
  induction cells generalizing c s written data with
  | nil =>
    simp only [List.map_nil, writeChunks, yields_pure, Prod.mk.injEq, and_true] at h
    obtain ⟨rfl, rfl⟩ := h
    exact ⟨[], .nil, by simp, fun _ _ => rfl, by simp [stored], by simp⟩
  | cons cell rest ih =>
    rw [List.map_cons, writeChunks] at h
    by_cases hdata : data = []
    · simp only [hdata, if_true, yields_pure, Prod.mk.injEq, and_true] at h
      obtain ⟨rfl, rfl⟩ := h
      exact ⟨cell :: rest, .refl _, hcells, fun _ _ => rfl, by simp [hdata], by simp [hdata]⟩
    · simp only [hdata, if_false, yields_bind] at h
      obtain ⟨outcome, c₂, hcell, hrest⟩ := h
      cases outcome with
      | error rc => simp at hrest
      | ok u =>
        simp only [yields_attempt_ok, yields_bind] at hcell
        obtain ⟨content, c₁, hquery, hupdate⟩ := hcell
        obtain ⟨hcontent, hsame⟩ := yields_query hquery
        have hthere := hcells cell (by simp)
        obtain rfl : content = cell.2 := by rw [hcontent, hthere, Option.getD_some]
        have hwrites := yields_updateAssetFast (by rw [hsame]; exact hthere) hupdate
        rw [hsame] at hwrites
        obtain ⟨hfresh, hdistinct⟩ := List.nodup_cons.mp hdistinct
        have hkept : ∀ other ∈ rest, readable c₂.assets other.1 = some other.2 := by
          intro other hother
          rw [readable_congr (hwrites.other other.1 ?_), hcells other (by simp [hother])]
          rintro heq
          exact hfresh (heq ▸ List.mem_map_of_mem hother)
        obtain ⟨rest', hlinks, hread, hframe, hstored, hwritten⟩ := ih hkept hdistinct (Nat.zero_le _) hrest
        have hsize : ramfileChunkDataSize = 178 := rfl
        generalize htake : min (ramfileChunkDataSize - s) data.length = t at hwrites hstored hwritten
        have hin : s + (data.take t).length ≤ ramfileChunkDataSize := by
          rw [List.length_take]
          omega
        refine ⟨(cell.1, cell.2.patch s (data.take t)) :: rest', .cons ⟨rfl, nextChunk_patch _ hin⟩ hlinks, ?_, ?_,
          ?_, ?_⟩
        · intro other hother
          rcases List.mem_cons.mp hother with rfl | hother
          · rw [readable_congr (hframe cell.1 hfresh)]
            exact hwrites.here
          · exact hread other hother
        · intro key hkey
          rw [List.map_cons, List.mem_cons, not_or] at hkey
          rw [hframe key hkey.2, hwrites.other key hkey.1]
        · rw [stored_cons, stored_cons, id_eq, id_eq, hstored, splice_split _ _ (by rw [payload_length]; exact hs),
            payload_length, payload_patch _ hin, List.length_take, List.length_cons, List.take_take, List.drop_take,
              hsize]
          rw [hsize] at htake
          congr 2
          · congr 1
            omega
          · have hdrop : min (178 - s) (min (178 * (rest.length + 1) - s) data.length) = t := by omega
            rw [hdrop]
            by_cases hfull : t = data.length
            · rw [hfull, List.drop_length, List.take_nil, List.take_nil]
            · congr 1
              omega
        · rw [hwritten, List.length_drop, List.length_cons, hsize]
          rw [hsize] at htake
          omega

theorem stored_append (cells cells' : List (Hash × AssetData)) :
    stored id (cells ++ cells') = stored id cells ++ stored id cells' := List.flatMap_append

/-- A write of all the bytes, into all the cells. -/
theorem yields_writeAt {off written : Nat} {data : Bytes}
    (hcells : ∀ cell ∈ cells, readable c.assets cell.1 = some cell.2) (hdistinct : (cells.map Prod.fst).Nodup)
    (hoff : off ≤ ramfileChunkDataSize * cells.length) (hall : data.length ≤ written)
    (h : Yields (w.writeChunks ((cells.map Prod.fst).drop (off / ramfileChunkDataSize))
    (off % ramfileChunkDataSize) data 0)
      c (written, none) c') :
    ∃ cells', SameLinks cells cells' ∧ (∀ cell ∈ cells', readable c'.assets cell.1 = some cell.2) ∧
      (∀ key, key ∉ cells.map Prod.fst → c'.assets.lookup key = c.assets.lookup key) ∧
      stored id cells' = splice (stored id cells) off data ∧ written = data.length ∧
      off + data.length ≤ ramfileChunkDataSize * cells.length := by
  have hsize : ramfileChunkDataSize = 178 := rfl
  generalize hk : off / ramfileChunkDataSize = k at h
  generalize hs : off % ramfileChunkDataSize = s at h
  rw [hsize] at hk hs hoff
  generalize hpre : cells.take k = pre
  generalize hpost : cells.drop k = post at h
  have hlen : pre.length = k := by
    rw [← hpre, List.length_take]
    omega
  have hsplit : cells = pre ++ post := by rw [← hpre, ← hpost, List.take_append_drop]
  subst hsplit
  rw [List.map_append, ← hlen, ← List.length_map Prod.fst, List.drop_left] at h
  rw [List.map_append] at hdistinct
  obtain ⟨-, hdistinct, hdisjoint⟩ := List.nodup_append'.mp hdistinct
  obtain ⟨post', hlinks, hread, hframe, hstored, hwritten⟩ := yields_writeChunks
    (fun cell hcell => hcells cell (by simp [hcell])) hdistinct (by rw [hsize]; omega) h
  rw [hsize] at hwritten hstored
  rw [List.length_append] at hoff
  refine ⟨pre ++ post', List.rel_append (SameLinks.refl pre) hlinks, ?_, ?_, ?_, by omega, ?_⟩
  · intro cell hcell
    rcases List.mem_append.mp hcell with hcell | hcell
    · rw [readable_congr (hframe cell.1 (hdisjoint (List.mem_map_of_mem hcell)))]
      exact hcells cell (by simp [hcell])
    · exact hread cell hcell
  · intro key hkey
    rw [List.map_append, List.mem_append, not_or] at hkey
    exact hframe key hkey.2
  · have hstart : off = (stored id pre).length + s := by
      rw [stored_length, hsize]
      omega
    rw [stored_append, stored_append, hstored, hstart, splice_append, List.take_of_length_le (by omega)]
  · rw [List.length_append, hsize]
    omega

variable {now : UInt64} {headKey : Hash} {head : AssetData} {header : RamfileHeader}

/-- The head that a call reads is the head of the file. -/
theorem yields_readHead_file (hfile : FileAt (readable c.assets) headKey head header cells)
    {r : AssetData × RamfileHeader} (h : Yields (readHead w.query headKey) c r c') :
    r = (head, header) ∧ c'.assets = c.assets := by
  obtain ⟨hhead, hparse, hsame⟩ := yields_readHead h
  rw [hfile.here, Option.getD_some] at hhead
  rw [hhead, hfile.parsed] at hparse
  exact ⟨Prod.ext hhead (Option.some.inj hparse).symm, hsame⟩

theorem capacity_le (chunks : List Hash) : capacity chunks ≤ ramfileChunkDataSize * chunks.length := by
  rw [capacity, Nat.mul_comm]
  exact Nat.mod_le _ _

theorem parseRamfileHeader_size (hparse : parseRamfileHeader head = some header) : header.fileSize < 2 ^ 64 := by
  simp only [parseRamfileHeader] at hparse
  split_ifs at hparse
  obtain rfl := Option.some.inj hparse
  have hlt := leNat_lt (head.slice 1 8).bytes.reverse
  rw [List.length_reverse, ByteArr.size_eq, ← beNat_reverse, List.reverse_reverse] at hlt
  exact hlt

/-- A file with the same chain under a new head. -/
theorem fileAt_touched {assets assets' : FMap Hash Asset} {fileSize : Nat} {hash firstChunk : Hash}
    (hwrites : Writes assets assets' headKey (touchedHead head fileSize hash firstChunk now))
    (hlinked : Linked id (readable assets) firstChunk cells (ByteArr.zero 32)) (hapart : headKey ∉ cells.map Prod.fst)
    (hcovers : fileSize ≤ ramfileChunkDataSize * cells.length) (hsmall : fileSize < 2 ^ 64) :
    FileAt (readable assets') headKey (touchedHead head fileSize hash firstChunk now) ⟨fileSize, firstChunk⟩ cells := by
  refine ⟨hwrites.here, ?_, ?_, hcovers⟩
  · rw [touchedHead, (buildRamfileHeader_fields _ _ _ _ _ _).1, Nat.mod_eq_of_lt hsmall]
  · refine hlinked.congr fun cell hcell => readable_congr (hwrites.other _ ?_)
    rintro rfl
    exact hapart (List.mem_map_of_mem hcell)

theorem yields_ramfileWrite {off : Nat} {data : Bytes} (hfile : FileAt (readable c.assets) headKey head header cells)
    (hend : off + data.length < 2 ^ 64)
    (h : Yields (w.ramfileWrite now (headKey :: cells.map Prod.fst) off data) c () c') :
    ∃ head' cells', FileAt (readable c'.assets) headKey head'
        ⟨max header.fileSize (off + data.length), header.firstChunk⟩ cells' ∧
      cells'.map Prod.fst = cells.map Prod.fst ∧ stored id cells' = splice (stored id cells) off data ∧
      off + data.length ≤ ramfileChunkDataSize * cells.length := by
  simp only [ramfileWrite, yields_bind] at h
  obtain ⟨r, c₁, hread, h⟩ := h
  obtain ⟨rfl, hsame⟩ := yields_readHead_file hfile hread
  dsimp only at h
  split_ifs at h with hpast
  · exact absurd h not_yields_throw
  simp only [yields_bind] at h
  obtain ⟨⟨written, writeErr⟩, c₂, hloop, u, c₃, htouch, h⟩ := h
  cases writeErr with
  | some rc => exact absurd h not_yields_throw
  | none =>
    dsimp only at h htouch
    split_ifs at h with hall
    · exact absurd h not_yields_throw
    · obtain ⟨-, rfl⟩ := yields_pure.mp h
      have hoff : off ≤ ramfileChunkDataSize * cells.length := by
        have hcapacity := capacity_le (cells.map Prod.fst)
        rw [List.length_map] at hcapacity
        omega
      obtain ⟨cells', hlinks, hthere, hframe, hstored, rfl, hfits⟩ := yields_writeAt
        (fun cell hcell => by rw [hsame]; exact hfile.linked.lookup hcell) hfile.linked.nodup hoff (by omega) hloop
      have hwrites := yields_updateAssetFast
        (by rw [readable_congr (hframe headKey hfile.apart), hsame]; exact hfile.here) htouch
      have hcovers := hfile.covers
      have hsize := parseRamfileHeader_size hfile.parsed
      rw [Nat.mod_eq_of_lt hend] at hwrites
      have hlinked := hlinks.linked hfile.linked hthere
      refine ⟨_, cells', fileAt_touched hwrites hlinked ?_ ?_ (by omega), hlinks.keys_eq, hstored, hfits⟩
      · rw [hlinks.keys_eq]
        exact hfile.apart
      · rw [← hlinks.length_eq]
        omega

/-! ### Growth -/

/-- A chain hung on the last cell of another. -/
theorem linked_extend {q q' : Hash → Option AssetData} {first next : Hash} {tail : Hash × AssetData}
    {new : List (Hash × AssetData)} (h : Linked id q first (cells ++ [tail]) (ByteArr.zero 32))
    (hkept : ∀ cell ∈ cells, q' cell.1 = q cell.1)
    (htail : q' tail.1 = some (tail.2.patch ramfileNextOffset next.bytes))
    (hnew : Linked id q' next new (ByteArr.zero 32)) :
    Linked id q' first (cells ++ (tail.1, tail.2.patch ramfileNextOffset next.bytes) :: new) (ByteArr.zero 32) := by
  rw [linked_append] at h ⊢
  obtain ⟨mid, hcells, hmid, hne, -, -⟩ := h
  refine ⟨mid, hcells.congr hkept, hmid, hne, ?_, ?_⟩
  · rw [hmid, htail]
  · rw [id_eq, nextChunk_patch_next]
    exact hnew

theorem yields_hangChunks {firstChunk newFirst first : Hash} {new : List (Hash × AssetData)}
    (hcells : Linked id (readable c.assets) firstChunk cells (ByteArr.zero 32))
    (hnew : Linked id (readable c.assets) newFirst new (ByteArr.zero 32))
    (hapart : ∀ key ∈ cells.map Prod.fst, key ∉ new.map Prod.fst)
    (h : Yields (w.hangChunks (cells.map Prod.fst) firstChunk newFirst) c first c') :
    ∃ cells', Linked id (readable c'.assets) first (cells' ++ new) (ByteArr.zero 32) ∧
      cells'.map Prod.fst = cells.map Prod.fst ∧ stored id cells' = stored id cells ∧
      ∀ key, key ∉ cells.map Prod.fst → c'.assets.lookup key = c.assets.lookup key := by
  rcases List.eq_nil_or_concat' cells with rfl | ⟨init, tail, rfl⟩
  · obtain ⟨rfl, rfl⟩ := yields_pure.mp h
    exact ⟨[], hnew, rfl, rfl, fun _ _ => rfl⟩
  · simp only [hangChunks, List.map_append, List.map_singleton, List.getLast?_concat, yields_bind, yields_pure] at h
    obtain ⟨content, c₁, hquery, u, c₂, hupdate, rfl, rfl⟩ := h
    obtain ⟨hcontent, hsame⟩ := yields_query hquery
    have hthere := hcells.lookup (List.mem_append_right init (List.mem_singleton_self tail))
    obtain rfl : content = tail.2 := by rw [hcontent, hthere, Option.getD_some]
    have hwrites := yields_updateAssetFast (by rw [hsame]; exact hthere) hupdate
    rw [hsame] at hwrites
    have hdistinct := hcells.nodup
    rw [List.map_append, List.map_singleton, List.nodup_append'] at hdistinct
    refine ⟨init ++ [(tail.1, tail.2.patch ramfileNextOffset newFirst.bytes)], ?_, by simp, ?_, ?_⟩
    · rw [List.append_assoc, List.singleton_append]
      refine linked_extend hcells (fun cell hcell => readable_congr (hwrites.other _ ?_)) hwrites.here
        (hnew.congr fun cell hcell => readable_congr (hwrites.other _ ?_))
      · rintro heq
        exact hdistinct.2.2 (List.mem_map_of_mem hcell) (heq ▸ List.mem_singleton_self _)
      · rintro heq
        exact hapart tail.1 (by simp) (heq ▸ List.mem_map_of_mem hcell)
    · simp only [stored_append, stored_cons, id_eq, payload_patch_next]
    · intro key hkey
      refine hwrites.other key ?_
      rintro rfl
      simp at hkey

/-- The new chunks hold zeros and hang on the last one. -/
theorem yields_growChain {n : Nat} {days : UInt16} {r : Hash × List Hash}
    (hfile : FileAt (readable c.assets) headKey head header cells) (hn : n < 2 ^ 64)
    (h : Yields (w.growChain (cells.map Prod.fst) header n days) c r c') :
    ∃ cells' m, Linked id (readable c'.assets) r.1 cells' (ByteArr.zero 32) ∧
      cells'.map Prod.fst = cells.map Prod.fst ++ r.2 ∧ stored id cells' = stored id cells ++ List.replicate m 0 ∧
      n ≤ ramfileChunkDataSize * cells'.length ∧ headKey ∉ r.2 ∧ c'.assets.lookup headKey =
        c.assets.lookup headKey := by
  have hsize : ramfileChunkDataSize = 178 := rfl
  have hcapacity := capacity_le (cells.map Prod.fst)
  rw [List.length_map, hsize] at hcapacity
  rw [growChain] at h
  generalize capacity (cells.map Prod.fst) = cap at h hcapacity
  split_ifs at h with henough
  · obtain ⟨rfl, rfl⟩ := yields_pure.mp h
    have hcovers := hfile.covers
    rw [hsize] at hcovers
    exact ⟨cells, 0, hfile.linked, by simp, by simp, by rw [hsize]; omega, by simp, rfl⟩
  · simp only [yields_bind] at h
    obtain ⟨newKeys, c₁, hchain, h⟩ := h
    rw [hsize] at hchain
    generalize hm : (n - cap + 178 - 1) % 2 ^ 64 / 178 * 178 = m at hchain
    obtain ⟨new, hnew, hlen⟩ := yields_createChunkChain hchain
    rw [List.length_replicate, hsize] at hlen
    have hzeros : stored id new = List.replicate m 0 := by
      have hholds := hnew.holds
      rwa [List.length_replicate, List.take_of_length_le] at hholds
      rw [stored_length, hsize]
      omega
    -- the keys of the file were taken when the new ones were drawn
    have hold : ∀ key content, readable c.assets key = some content →
        key ∉ newKeys ∧ c₁.assets.lookup key = c.assets.lookup key := by
      intro key content hkey
      have hfresh : key ∉ newKeys := by
        intro hmem
        simp [readable, hnew.free key hmem] at hkey
      exact ⟨hfresh, hnew.other key hfresh⟩
    have hhead := hold headKey head hfile.here
    have hcells : Linked id (readable c₁.assets) header.firstChunk cells (ByteArr.zero 32) :=
      hfile.linked.congr fun cell hcell => readable_congr (hold _ _ (hfile.linked.lookup hcell)).2
    cases newKeys with
    | nil => exact absurd h not_yields_throw
    | cons newFirst others =>
      simp only [yields_bind, yields_pure] at h
      obtain ⟨first, c₂, hhang, rfl, rfl⟩ := h
      obtain ⟨cells', hlinked, hkeys, hstored, hframe⟩ := yields_hangChunks hcells hnew.linked
        (by
          intro key hkey
          obtain ⟨content, -, hcontent, -⟩ := hfile.linked.after hkey
          rw [hnew.keys_eq]
          exact (hold key content hcontent).1) hhang
      have hlen' : (cells' ++ new).length = cells.length + new.length := by
        rw [List.length_append, ← List.length_map Prod.fst, hkeys, List.length_map]
      have hsome : new.length = others.length + 1 := by
        rw [← List.length_map Prod.fst, hnew.keys_eq, List.length_cons]
      refine ⟨cells' ++ new, m, hlinked, by rw [List.map_append, hkeys, hnew.keys_eq], ?_, ?_, hhead.1, ?_⟩
      · rw [stored_append, hstored, hzeros]
      · -- a sum of 2 ^ 64 or more would have left no bytes for a new chunk
        rw [hlen', hlen, hsize]
        omega
      · rw [hframe headKey hfile.apart, hhead.2]

theorem yields_ramfileResize {n : Nat} {days : UInt16} {keys' : List Hash}
    (hfile : FileAt (readable c.assets) headKey head header cells) (hn : n < 2 ^ 64)
    (h : Yields (w.ramfileResize now (headKey :: cells.map Prod.fst) n days) c keys' c') :
    ∃ head' firstChunk cells' m, FileAt (readable c'.assets) headKey head' ⟨n, firstChunk⟩ cells' ∧
      keys' = headKey :: cells'.map Prod.fst ∧ stored id cells' = stored id cells ++ List.replicate m 0 := by
  simp only [ramfileResize, yields_bind] at h
  obtain ⟨r, c₁, hread, h⟩ := h
  obtain ⟨rfl, hsame⟩ := yields_readHead_file hfile hread
  rw [← hsame] at hfile
  dsimp only at h
  by_cases hnop : n = header.fileSize
  · rw [if_pos hnop] at h
    obtain ⟨rfl, rfl⟩ := yields_pure.mp h
    subst hnop
    exact ⟨head, header.firstChunk, cells, 0, hfile, rfl, by simp⟩
  · rw [if_neg hnop] at h
    simp only [yields_bind, yields_pure] at h
    obtain ⟨⟨firstChunk, newKeys⟩, c₂, hgrow, u, c₃, htouch, rfl, rfl⟩ := h
    obtain ⟨cells', m, hlinked, hkeys, hstored, hcovers, hfresh, hhead⟩ := yields_growChain hfile hn hgrow
    have hwrites := yields_updateAssetFast (by rw [readable_congr hhead]; exact hfile.here) htouch
    refine ⟨_, firstChunk, cells', m, fileAt_touched hwrites hlinked ?_ hcovers hn, ?_, hstored⟩
    · rw [hkeys, List.mem_append, not_or]
      exact ⟨hfile.apart, hfresh⟩
    · rw [hkeys, List.cons_append]

end RamWorld

/-! ### Runs -/

/-- An array of bytes with a fence: what is held stays when the fence moves. -/
structure FencedArray where
  held : Bytes
  size : Nat

/-- The bytes before the fence, zeros where none are held. -/
def FencedArray.bytes (array : FencedArray) : Bytes := padTo array.size array.held

inductive RamOp where
  | write (offset : UInt64) (data : Bytes)
  | resize (newSize : UInt64) (days : UInt16)

namespace RamOp

/-- The call on a file with these keys, and its keys after it. -/
def run (w : RamWorld) (now : UInt64) : RamOp → List Hash → RamM (List Hash)
  | write offset data, keys => do
    w.ramfileWrite now keys offset.toNat data
    pure keys
  | resize newSize days, keys => w.ramfileResize now keys newSize.toNat days

/-- The operation on an array with a fence. -/
def onFenced : RamOp → FencedArray → FencedArray
  | write offset data, array => ⟨overwrite array.held offset.toNat data, max array.size (offset.toNat + data.length)⟩
  | resize newSize _, array => { array with size := newSize.toNat }

/-- The operation on an array that grows by zeros. -/
def onArray : RamOp → Bytes → Bytes
  | write offset data, array => overwrite array offset.toNat data
  | resize newSize _, array => padTo newSize.toNat array

/-- Where the operation ends; a file has a 64-bit size. -/
def stop : RamOp → Nat
  | write offset data => offset.toNat + data.length
  | resize newSize _ => newSize.toNat

end RamOp

/-- The keys are those of a file, and what it holds is the array. -/
def IsRamfile (assets : FMap Hash Asset) (keys : List Hash) (array : FencedArray) : Prop :=
  ∃ headKey head header cells k, FileAt (readable assets) headKey head header cells ∧
    keys = headKey :: cells.map Prod.fst ∧ header.fileSize = array.size ∧
    stored id cells = array.held ++ List.replicate k 0

/-- Successful calls on a file. Between them others may change other assets. -/
inductive RamRun (w : RamWorld) : RamClient → List Hash → List RamOp → RamClient → List Hash → Prop
  | nil {c c' : RamClient} {keys : List Hash} (hkept : ∀ key ∈ keys, c'.assets.lookup key = c.assets.lookup key) :
      RamRun w c keys [] c' keys
  | cons {c c₁ c₂ c' : RamClient} {keys keys₁ keys' : List Hash} {op : RamOp} {ops : List RamOp} (now : UInt64)
      (hkept : ∀ key ∈ keys, c₁.assets.lookup key = c.assets.lookup key)
      (hstep : Yields (op.run w now keys) c₁ keys₁ c₂) (hrest : RamRun w c₂ keys₁ ops c' keys') :
      RamRun w c keys (op :: ops) c' keys'

section run

variable {w : RamWorld} {c c' : RamClient} {keys keys' : List Hash} {array : FencedArray}

theorem IsRamfile.congr {assets assets' : FMap Hash Asset} (h : IsRamfile assets keys array)
    (hkept : ∀ key ∈ keys, assets'.lookup key = assets.lookup key) : IsRamfile assets' keys array := by
  obtain ⟨headKey, head, header, cells, k, hfile, rfl, hrest⟩ := h
  exact ⟨headKey, head, header, cells, k, hfile.congr fun key hkey => RamWorld.readable_congr (hkept key hkey), rfl,
    hrest⟩

/-- An operation on a file is the operation on its array. -/
theorem IsRamfile.step {op : RamOp} {now : UInt64} (hfile : IsRamfile c.assets keys array) (hstop : op.stop < 2 ^ 64)
    (h : Yields (op.run w now keys) c keys' c') : IsRamfile c'.assets keys' (op.onFenced array) := by
  obtain ⟨headKey, head, header, cells, k, hfile, rfl, hsize, hheld⟩ := hfile
  cases op with
  | write offset data =>
    simp only [RamOp.run, yields_bind, yields_pure] at h
    obtain ⟨u, c₁, hwrite, rfl, rfl⟩ := h
    obtain ⟨head', cells', hfile', hkeys, hstored, hfits⟩ := RamWorld.yields_ramfileWrite hfile hstop hwrite
    have hlen := congrArg List.length hheld
    rw [stored_length, List.length_append, List.length_replicate] at hlen
    obtain ⟨k', hsplice⟩ := @splice_append_replicate array.held offset.toNat k data (by omega)
    refine ⟨headKey, head', _, cells', k', hfile', by rw [hkeys], ?_, ?_⟩
    · rw [hsize]
      rfl
    · rw [hstored, hheld, hsplice]
      rfl
  | resize newSize days =>
    obtain ⟨head', firstChunk, cells', m, hfile', hkeys, hstored⟩ := RamWorld.yields_ramfileResize hfile hstop h
    refine ⟨headKey, head', _, cells', k + m, hfile', hkeys, rfl, ?_⟩
    rw [hstored, hheld, List.append_assoc, List.replicate_append_replicate]
    rfl

theorem IsRamfile.run {ops : List RamOp} (hfile : IsRamfile c.assets keys array) (hstop : ∀ op ∈ ops, op.stop < 2 ^ 64)
    (h : RamRun w c keys ops c' keys') :
    IsRamfile c'.assets keys' (ops.foldl (fun array op => op.onFenced array) array) := by
  induction h generalizing array with
  | nil hkept => exact hfile.congr hkept
  | cons now hkept hstep _ ih =>
    exact ih ((hfile.congr hkept).step (hstop _ (by simp)) hstep) fun op hop => hstop op (by simp [hop])

/-- A file is an array with a fence: after any successful writes and resizes a read is the slice of the array with
the same operations done to it. -/
theorem ramfile_is_fenced_array {ops : List RamOp} (hfile : IsRamfile c.assets keys array)
    (hstop : ∀ op ∈ ops, op.stop < 2 ^ 64) (hrun : RamRun w c keys ops c' keys') (offset length : Nat) :
    ramfileRead (queryAsset c'.assets) keys' offset length =
      .ok (((ops.foldl (fun array op => op.onFenced array) array).bytes.drop offset).take length) := by
  obtain ⟨headKey, head, header, cells, k, hat, rfl, hsize, hheld⟩ := hfile.run hstop hrun
  have hcovers := hat.covers
  rw [← @stored_length _ id] at hcovers
  rw [hat.queried.ramfileRead, ← padTo_of_le hcovers, hheld, padTo_append_replicate, hsize]
  rfl

end run

/-- A client with a file of one byte. -/
def noteClient : RamClient :=
  ⟨(Finmap.insert mailFile
      ⟨mailOwner, buildRamfileHeader 1 (ByteArr.zero 32) 0 0 (ByteArr.zero 121) mailChunk, 0, 0⟩ ∅).insert mailChunk
    ⟨mailOwner, buildRamfileChunk [7] (ByteArr.zero 32), 0, 0⟩, 0, 0⟩

theorem isRamfile_noteClient : IsRamfile noteClient.assets [mailFile, mailChunk] ⟨[7], 1⟩ := by
  have hparse := (buildRamfileHeader_fields 1 (ByteArr.zero 32) 0 0 (ByteArr.zero 121) mailChunk).1
  refine ⟨mailFile, _, _, [(mailChunk, buildRamfileChunk [7] (ByteArr.zero 32))], 177,
    ⟨rfl, hparse, ⟨rfl, by decide, rfl, ?_⟩, ?_⟩, rfl, rfl, ?_⟩
  · exact nextChunk_build _ _
  · decide
  · rw [stored_cons, id_eq, payload_build, padTo_eq, List.take_of_length_le (by decide)]
    exact List.append_nil _

/-- The byte that a shrink took away is back after the growth. -/
theorem stale_byte_returns :
    ∃ c', IsRamfile noteClient.assets [mailFile, mailChunk] ⟨[7], 1⟩ ∧
      RamRun calmWorld noteClient [mailFile, mailChunk] [.resize 0 3, .resize 1 3] c' [mailFile, mailChunk] ∧
      ramfileRead (queryAsset noteClient.assets) [mailFile, mailChunk] 0 1 = .ok [7] ∧
      ramfileRead (queryAsset c'.assets) [mailFile, mailChunk] 0 1 = .ok [7] ∧
      [RamOp.resize 0 3, .resize 1 3].foldl (fun array op => op.onArray array) [7] = [0] := by
  refine ⟨_, isRamfile_noteClient, .cons 1 (fun _ _ => rfl) rfl (.cons 2 (fun _ _ => rfl) rfl (.nil fun _ _ => rfl)),
    rfl, rfl, rfl⟩

theorem ramfile_is_fenced_array_shrunk :
    ∃ c', RamRun calmWorld noteClient [mailFile, mailChunk] [.resize 0 3, .write 2 [5]] c' [mailFile, mailChunk] ∧
      ramfileRead (queryAsset c'.assets) [mailFile, mailChunk] 0 9 = .ok [7, 0, 5] := by
  obtain ⟨c', hrun⟩ : ∃ c', RamRun calmWorld noteClient [mailFile, mailChunk] [.resize 0 3, .write 2 [5]] c'
      [mailFile, mailChunk] :=
    ⟨_, .cons 1 (fun _ _ => rfl) rfl (.cons 2 (fun _ _ => rfl) rfl (.nil fun _ _ => rfl))⟩
  exact ⟨c', hrun, ramfile_is_fenced_array isRamfile_noteClient (by decide) hrun 0 9⟩

end Ces
