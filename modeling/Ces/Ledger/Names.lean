import Ces.Lib.Index
import Ces.Ledger.History

/-!
# The key-name registry

A registered name is stored in its canonical form, which `normalize` leaves alone, so the reverse index is the inverse
of the forward store although the two are written apart. `names_bijective` is that fact for whatever sequence of
registrations, releases, daily sweeps and rebuilds; `names_runServer` carries it to the histories of the server.
-/

namespace Ces

open Ces.Lib CesServer

namespace KeyNames

/-! ### The canonical form -/

/-- What `normalize` keeps of a name. -/
def canonicalText (name : KeyNameData) : Bytes :=
  (((name.bytes.takeWhile (· != 0)).map fun b => if b = 0x20 then 0x5F else b).dropWhile (· == 0x5F)).rdropWhile
    (· == 0x5F)

theorem normalize_eq (name : KeyNameData) : normalize name = ByteArr.ofList 32 (canonicalText name) := rfl

theorem canonicalText_sublist (name : KeyNameData) :
    (canonicalText name).Sublist ((name.bytes.takeWhile (· != 0)).map fun b => if b = 0x20 then 0x5F else b) := by
  have hstart : canonicalText name <+: _ := List.rdropWhile_prefix _ _
  exact hstart.sublist.trans (List.dropWhile_sublist _)

theorem length_canonicalText_le (name : KeyNameData) : (canonicalText name).length ≤ 32 := by
  have hsub := (canonicalText_sublist name).length_le
  have htake := (List.takeWhile_sublist (fun b : UInt8 => b != 0) (l := name.bytes)).length_le
  rw [List.length_map] at hsub
  rw [name.size_eq] at htake
  exact hsub.trans htake

theorem mem_canonicalText {name : KeyNameData} {b : UInt8} (h : b ∈ canonicalText name) : b ≠ 0 ∧ b ≠ 0x20 := by
  obtain ⟨x, hx, rfl⟩ := List.mem_map.mp ((canonicalText_sublist name).subset h)
  have hne : x ≠ 0 := by simpa using List.mem_takeWhile_imp hx
  split_ifs with hspace
  · exact ⟨by decide, by decide⟩
  · exact ⟨hne, hspace⟩

/-- Trimming the end keeps the beginning trimmed. -/
theorem dropWhile_rdropWhile {α : Type} (p : α → Bool) (l : List α) :
    ((l.dropWhile p).rdropWhile p).dropWhile p = (l.dropWhile p).rdropWhile p := by
  have hstart : (l.dropWhile p).rdropWhile p <+: l.dropWhile p := List.rdropWhile_prefix _ _
  have hdrop : (l.dropWhile p).dropWhile p = l.dropWhile p := List.dropWhile_idempotent p l
  cases htrim : (l.dropWhile p).rdropWhile p with
  | nil => rfl
  | cons a rest =>
    obtain ⟨tail, htail⟩ := hstart
    rw [htrim, List.cons_append] at htail
    rw [← htail] at hdrop
    refine List.dropWhile_cons_of_neg fun ha => ?_
    have hlen := (List.dropWhile_sublist p (l := rest ++ tail)).length_le
    rw [List.dropWhile_cons_of_pos ha] at hdrop
    rw [hdrop, List.length_cons] at hlen
    omega

theorem takeWhile_bytes_ofList {l : Bytes} (hlen : l.length ≤ 32) (hne : ∀ b ∈ l, b ≠ 0) :
    (ByteArr.ofList 32 l).bytes.takeWhile (· != 0) = l := by
  have hpos : ∀ b ∈ l, (b != 0) = true := fun b hb => bne_iff_ne.mpr (hne b hb)
  change ((l ++ List.replicate 32 0).take 32).takeWhile (· != 0) = l
  rw [List.take_append, List.take_of_length_le hlen, List.takeWhile_append_of_pos hpos, List.take_replicate]
  cases min (32 - l.length) 32 with
  | zero => rw [List.replicate_zero, List.takeWhile_nil, List.append_nil]
  | succ n =>
    rw [List.replicate_succ, List.takeWhile_cons_of_neg (by decide), List.append_nil]

theorem canonicalText_normalize (name : KeyNameData) : canonicalText (normalize name) = canonicalText name := by
  have htake : (normalize name).bytes.takeWhile (· != 0) = canonicalText name :=
    takeWhile_bytes_ofList (length_canonicalText_le name) fun b hb => (mem_canonicalText hb).1
  have hmap : (canonicalText name).map (fun b => if b = 0x20 then 0x5F else b) = canonicalText name :=
    (List.map_congr_left fun b hb => if_neg (mem_canonicalText hb).2).trans (List.map_id' _)
  have hdrop : (canonicalText name).dropWhile (· == 0x5F) = canonicalText name := dropWhile_rdropWhile _ _
  have hrdrop : (canonicalText name).rdropWhile (· == 0x5F) = canonicalText name := List.rdropWhile_idempotent _ _
  rw [canonicalText, htake, hmap, hdrop, hrdrop]

/-- A normalized name is its own canonical form. -/
theorem normalize_normalize (name : KeyNameData) : normalize (normalize name) = normalize name := by
  rw [normalize_eq (normalize name), canonicalText_normalize, normalize_eq]

theorem ne_zero_of_validName {name : KeyNameData} (h : validName name = true) : name ≠ ByteArr.zero 32 := by
  rintro rfl
  revert h
  decide

/-! ### The registry -/

/-- The index is the inverse of the store, whose names are canonical and valid. -/
structure Coherent (names : KeyNames) : Prop where
  indexed : Indexed names.store names.byName
  canonical : ∀ key name, names.store.lookup key = some name → normalize name = name ∧ validName name = true

variable {names : KeyNames}

theorem coherent_empty : Coherent ⟨∅, ∅⟩ :=
  ⟨indexed_empty, fun key _ h => absurd ((Finmap.lookup_empty key).symm.trans h) nofun⟩

/-- No stored name is the empty one. -/
theorem Coherent.nameForKey (h : names.Coherent) (key : Hash) : names.nameForKey key = names.store.lookup key := by
  unfold KeyNames.nameForKey
  cases hname : names.store.lookup key with
  | none => rfl
  | some name => exact if_neg (ne_zero_of_validName (h.canonical key name hname).2)

theorem Coherent.freed (h : names.Coherent) (key : Hash) :
    ((names.nameForKey key).elim names.byName fun old => names.byName.erase (normalize old)) =
      dropStale names.store names.byName key := by
  rw [h.nameForKey]
  unfold dropStale
  cases hname : names.store.lookup key with
  | none => rfl
  | some name => exact congrArg names.byName.erase (h.canonical key name hname).1

theorem Coherent.registerName (h : names.Coherent) (key : Hash) (name : KeyNameData) (maxKeyName : Nat) :
    (names.registerName key name maxKeyName).2.Coherent := by
  unfold KeyNames.registerName
  dsimp only
  split_ifs with hbad htaken hfull
  · exact h
  · exact h
  · exact h
  · rw [h.freed]
    have hvalid : validName (normalize name) = true := by simpa using hbad
    refine ⟨h.indexed.assign ?_, fun x stored hstored => ?_⟩
    · by_cases hnone : names.byName.lookup (normalize name) = none
      · exact .inl hnone
      · exact .inr (not_not.mp fun hother => htaken ⟨hnone, hother⟩)
    · rw [FMap.lookup_insert_eq] at hstored
      split_ifs at hstored
      · rw [← Option.some.inj hstored]
        exact ⟨normalize_normalize name, hvalid⟩
      · exact h.canonical x stored hstored

theorem Coherent.clearName (h : names.Coherent) (key : Hash) : (names.clearName key).2.Coherent := by
  unfold KeyNames.clearName
  have hfreed := h.freed key
  have hdrop := h.indexed.dropStale key
  rw [← hfreed] at hdrop
  cases hname : names.nameForKey key with
  | none => exact h
  | some name =>
    rw [hname] at hdrop
    refine ⟨hdrop, fun x stored hstored => h.canonical x stored ?_⟩
    rw [FMap.lookup_erase_eq] at hstored
    split_ifs at hstored
    exact hstored

/-- Among canonical names the index is rebuilt entry by entry as `indexKey` does. -/
theorem foldl_indexEntry {store : FMap Hash KeyNameData}
    (hcanonical : ∀ key name, store.lookup key = some name → normalize name = name ∧ validName name = true)
    (order : List Hash) (byName : FMap KeyNameData Hash) :
    order.foldl (indexEntry store) byName = order.foldl (indexKey store) byName := by
  refine congrArg (fun step => order.foldl step byName) (funext fun rev => funext fun key => ?_)
  unfold indexEntry indexKey
  cases hname : store.lookup key with
  | none => rfl
  | some name =>
    obtain ⟨hfixed, hvalid⟩ := hcanonical key name hname
    have hne : name ≠ ByteArr.zero 32 := ne_zero_of_validName hvalid
    dsimp only
    rw [hfixed]
    simp only [hne, false_or]

/-- A rebuild over a part of a coherent store. -/
theorem Coherent.rebuild (h : names.Coherent) {store : FMap Hash KeyNameData} (byName : FMap KeyNameData Hash)
    {order : List Hash} (hsub : ∀ key name, store.lookup key = some name → names.store.lookup key = some name)
    (hall : ∀ key, store.lookup key ≠ none → key ∈ order) : (rebuildReverse ⟨store, byName⟩ order).Coherent := by
  have hcanonical : ∀ key name, store.lookup key = some name → normalize name = name ∧ validName name = true :=
    fun key name hname => h.canonical key name (hsub key name hname)
  refine ⟨?_, hcanonical⟩
  unfold rebuildReverse
  dsimp only
  rw [foldl_indexEntry hcanonical]
  exact .rebuild (h.indexed.oneKeyEach.mono hsub) hall

end KeyNames

/-! ### The daily sweep -/

/-- The sweep only erases, and reclaims nothing when it keeps every name. -/
structure KeyNameSweep.Within (store : FMap Hash KeyNameData) (st : KeyNameSweep) : Prop where
  sub : ∀ key name, st.store.lookup key = some name → store.lookup key = some name
  kept : st.reclaimed = 0 → st.store = store

theorem KeyNameSweep.Within.sweepKeyName {store : FMap Hash KeyNameData} {st : KeyNameSweep}
    (hvalid : ∀ key name, store.lookup key = some name → name ≠ ByteArr.zero 32) (h : st.Within store) (fee : UInt64)
    (key : Hash) : (sweepKeyName fee st key).Within store := by
  unfold Ces.sweepKeyName
  cases hname : st.store.lookup key with
  | none => exact h
  | some name =>
    dsimp only
    rw [if_neg (hvalid key name (h.sub key name hname))]
    cases st.sweep.rent (getHashPrefix key) fee with
    | some w => exact ⟨h.sub, h.kept⟩
    | none =>
      refine ⟨fun x stored hstored => h.sub x stored ?_, fun hzero => absurd hzero (Nat.succ_ne_zero _)⟩
      change (st.store.erase key).lookup x = some stored at hstored
      rw [FMap.lookup_erase_eq] at hstored
      split_ifs at hstored
      exact hstored

theorem KeyNameSweep.Within.foldl {store : FMap Hash KeyNameData}
    (hvalid : ∀ key name, store.lookup key = some name → name ≠ ByteArr.zero 32) (fee : UInt64) (order : List Hash)
    (st : KeyNameSweep) (h : st.Within store) : (order.foldl (Ces.sweepKeyName fee) st).Within store := by
  induction order generalizing st with
  | nil => exact h
  | cons key order ih => exact ih _ (h.sweepKeyName hvalid fee key)

/-- The walk that rebuilds the index visits every name that is left. -/
def DailyOrder.Rebuilds (order : DailyOrder) (s : CesServer) : Prop :=
  ∀ key, (sweepKeyNames s order).keyNames.store.lookup key ≠ none → key ∈ order.reverse

theorem KeyNames.Coherent.sweepKeyNames {s : CesServer} (h : s.keyNames.Coherent) {order : DailyOrder}
    (hall : order.Rebuilds s) : (sweepKeyNames s order).keyNames.Coherent := by
  have hvalid : ∀ key name, s.keyNames.store.lookup key = some name → name ≠ ByteArr.zero 32 :=
    fun key name hname => ne_zero_of_validName (h.canonical key name hname).2
  have hwithin := KeyNameSweep.Within.foldl hvalid (s.discountFee .accountRent s.cfg.feeKeyName) order.keyNames
    ⟨.start s.accounts, s.keyNames.store, 0⟩ ⟨fun _ _ => id, fun _ => rfl⟩
  unfold DailyOrder.Rebuilds Ces.sweepKeyNames at *
  generalize order.keyNames.foldl (sweepKeyName (s.discountFee .accountRent s.cfg.feeKeyName))
    ⟨.start s.accounts, s.keyNames.store, 0⟩ = r at *
  dsimp only at hall ⊢
  by_cases hsome : 0 < r.reclaimed
  · rw [if_pos hsome] at hall ⊢
    exact h.rebuild _ hwithin.sub hall
  · rw [if_neg hsome, hwithin.kept (by omega)]
    exact h

/-! ### Reachable registries -/

/-- One step of the registry: a registration, a release, the sweep of some server's day, a rebuild. A rebuild walks
over the whole store, in an order of its own. -/
inductive NameStep : KeyNames → KeyNames → Prop
  | registerName (names : KeyNames) (key : Hash) (name : KeyNameData) (maxKeyName : Nat) :
    NameStep names (names.registerName key name maxKeyName).2
  | clearName (names : KeyNames) (key : Hash) : NameStep names (names.clearName key).2
  | sweep (s : CesServer) (order : DailyOrder) (hall : order.Rebuilds s) :
    NameStep s.keyNames (sweepKeyNames s order).keyNames
  | rebuildReverse (names : KeyNames) (order : List Hash) (hall : ∀ key, names.store.lookup key ≠ none → key ∈ order) :
    NameStep names (names.rebuildReverse order)

theorem NameStep.coherent {names names' : KeyNames} (hstep : NameStep names names') (h : names.Coherent) :
    names'.Coherent := by
  cases hstep with
  | registerName _ key name maxKeyName => exact h.registerName key name maxKeyName
  | clearName _ key => exact h.clearName key
  | sweep s order hall => exact h.sweepKeyNames hall
  | rebuildReverse _ order hall => exact h.rebuild names.byName (fun _ _ => id) hall

theorem coherent_of_steps {names names' : KeyNames} (hsteps : Relation.ReflTransGen NameStep names names')
    (h : names.Coherent) : names'.Coherent := by
  induction hsteps with
  | refl => exact h
  | tail _ hstep ih => exact hstep.coherent ih

/-- In every registry reached from the empty one, the index is the inverse of the store, every stored name is
canonical and valid, and no two keys hold one normalized name. -/
theorem names_bijective {names : KeyNames} (hreach : Relation.ReflTransGen NameStep ⟨∅, ∅⟩ names) :
    (∀ name key, names.byName.lookup name = some key ↔ names.store.lookup key = some name) ∧
      (∀ key name, names.store.lookup key = some name →
        KeyNames.normalize name = name ∧ KeyNames.validName name = true) ∧
      ∀ key key' name name', names.store.lookup key = some name → names.store.lookup key' = some name' →
        KeyNames.normalize name = KeyNames.normalize name' → key = key' := by
  have hcoherent := coherent_of_steps hreach KeyNames.coherent_empty
  refine ⟨hcoherent.indexed, hcoherent.canonical, fun key key' name name' hname hname' hsame => ?_⟩
  rw [(hcoherent.canonical key name hname).1, (hcoherent.canonical key' name' hname').1] at hsame
  subst hsame
  exact hcoherent.indexed.oneKeyEach key key' name hname hname'

/-- A key registers a name with a space at its end, then another key asks for the name. -/
theorem names_bijective_taken :
    let name : KeyNameData := ByteArr.ofList 32 [0x62, 0x6F, 0x62]
    let first := (KeyNames.registerName ⟨∅, ∅⟩ (ByteArr.ofList 32 [1]) (ByteArr.ofList 32 [0x62, 0x6F, 0x62, 0x20]) 0).2
    let names := (first.registerName (ByteArr.ofList 32 [2]) name 0).2
    names.byName.lookup name = some (ByteArr.ofList 32 [1]) ↔ names.store.lookup (ByteArr.ofList 32 [1]) = some name :=
  (names_bijective (.tail (.single (.registerName ..)) (.registerName ..))).1 _ _

/-! ### The registry of a running server -/

/-- The walks of a daily pass visit what they must. -/
def ServerOp.WalksNames (s : CesServer) : ServerOp → Prop
  | .ledger (.daily order) => order.Rebuilds (sweepAliases (sweepAssets (sweepAccounts s order) order) order)
  | _ => True

section server

variable (exec : CesServer → VmRunRequest → VmProgram)

theorem ServerOp.coherent_apply {s : CesServer} (op : ServerOp) (hwalks : op.WalksNames s) (h : s.keyNames.Coherent) :
    (op.apply exec s).keyNames.Coherent := by
  by_cases hkeeps : ∀ lop, op = .ledger lop → lop.KeepsNames
  · have hfixed : (op.apply exec s).fixed = s.fixed := op.fixed_apply s hkeeps
    have hnames : (op.apply exec s).keyNames = s.keyNames := congrArg (fun f => f.2.2) hfixed
    rw [hnames]
    exact h
  · simp only [not_forall] at hkeeps
    obtain ⟨lop, rfl, hnames⟩ := hkeeps
    cases lop with
    | registerKeyName originKey name providedNonce errFee =>
      refine (part_paidOp (fun t : CesServer => t.keyNames.Coherent) (fun _ _ => rfl) fun t ht => ?_).mpr h
      have hnew := h.registerName originKey (ByteArr.ofList 32 name) s.cfg.maxKeyName
      rcases hres : s.keyNames.registerName originKey (ByteArr.ofList 32 name) s.cfg.maxKeyName with ⟨res, names⟩
      rw [hres] at ht hnew
      cases res <;> cases ht
      exact propext (iff_of_true hnew h)
    | clearKeyName originKey providedNonce errFee =>
      refine (part_paidOp (fun t : CesServer => t.keyNames.Coherent) (fun _ _ => rfl) fun t ht => ?_).mpr h
      have hnew := h.clearName originKey
      rcases hres : s.keyNames.clearName originKey with ⟨cleared, names⟩
      rw [hres] at ht hnew
      cases cleared <;> cases ht
      exact propext (iff_of_true hnew h)
    | daily order =>
      have hswept : (sweepAliases (sweepAssets (sweepAccounts s order) order) order).keyNames.Coherent := h
      exact hswept.sweepKeyNames hwalks
    | _ => exact absurd trivial hnames

theorem names_runServer (s : CesServer) (ops : List ServerOp) (h : s.keyNames.Coherent)
    (hwalks : ∀ pre op post, ops = pre ++ op :: post → op.WalksNames (runServer exec s pre)) :
    (runServer exec s ops).keyNames.Coherent := by
  induction ops generalizing s with
  | nil => exact h
  | cons op ops ih =>
    refine ih (op.apply exec s) (op.coherent_apply exec (hwalks [] op ops rfl) h) fun pre next post hsplit => ?_
    exact hwalks (op :: pre) next post (congrArg (op :: ·) hsplit)

/-- Through every history of a server the two lookups of its registry are inverse to each other. -/
theorem server_names_inverse (s : CesServer) (ops : List ServerOp) (h : s.keyNames.Coherent)
    (hwalks : ∀ pre op post, ops = pre ++ op :: post → op.WalksNames (runServer exec s pre)) (name : KeyNameData)
    (key : Hash) :
    (runServer exec s ops).keyNames.keyForName name = some key ↔
      (runServer exec s ops).keyNames.nameForKey key = some name := by
  have hend := names_runServer exec s ops h hwalks
  rw [hend.nameForKey]
  exact hend.indexed name key

end server

/-- An account registers a name with a space at its end, and pays for it. -/
theorem server_names_inverse_registered :
    let key : Hash := ByteArr.ofList 32 [1]
    let accounts := (∅ : FMap HashPrefix Account).insert (getHashPrefix key) (.ofKey key 9000000000 0)
    let s := runServer (fun _ _ => .done ⟨.ok, 0, []⟩) (.load .stock (ByteArr.zero 32) accounts ∅ ∅)
      [.ledger (.registerKeyName key [0x62, 0x6F, 0x62, 0x20] 1 0)]
    s.keyNames.nameForKey key = some (ByteArr.ofList 32 [0x62, 0x6F, 0x62]) := by
  refine (server_names_inverse _ _ _ KeyNames.coherent_empty (fun pre op post h => ?_) _ _).mp (by decide +kernel)
  rcases pre with _ | ⟨_, _ | _⟩ <;> cases h
  trivial

end Ces
