import Ces.Ledger.History

/-!
# Accounts and their aliases

An account stores the id of its alias and the alias stores its owner. The writers that set either side set both, but
the record of an account goes when its last credit does, and with it one side of the link; a gossip may also put
another key's account in its place. `coherent_of_run`: as long as no linked record is dropped or replaced, the two
sides agree, and no account owns two aliases.
-/

namespace Ces

open Ces.Lib CesServer

/-- The two sides of every link agree. Id zero is no alias. -/
structure Cells.Coherent (c : Cells) : Prop where
  owned : ∀ id acc, c.accounts.lookup id = some acc → acc.aliasId ≠ 0 →
    ∃ al, c.aliases.lookup acc.aliasId = some al ∧ al.owner = id
  linked : ∀ n al, n ≠ 0 → c.aliases.lookup n = some al →
    ∃ acc, c.accounts.lookup al.owner = some acc ∧ acc.aliasId = n

/-- The account under `id`, if it is linked to an alias, passes `keep`. -/
def Cells.IfLinked (c : Cells) (id : HashPrefix) (keep : Account → Bool) : Prop :=
  (c.accounts.lookup id).all (fun acc => acc.aliasId == 0 || keep acc) = true

theorem Account.aliasId_setBalance (acc : Account) (b : Int) : (acc.setBalance b).aliasId = acc.aliasId := rfl

theorem Account.aliasId_setNonce (acc : Account) (n : UInt32) : { acc with nonce := n }.aliasId = acc.aliasId := rfl

namespace Touch

/-- No record of a linked account is dropped or replaced, and there is a free alias id for a new alias. -/
def KeepsLinks (t : Touch) (c : Cells) : Prop :=
  match t with
  | .debit id total receipt => c.IfLinked id fun acc => (debited total receipt acc).isSome
  | .debitRaw id total => c.IfLinked id fun acc => (debited total none acc).isSome
  | .fine id errFee => c.IfLinked id fun acc => (fined errFee acc).isSome
  | .create _ key _ _ => c.IfLinked (getHashPrefix key) fun _ => false
  | .expire id _ => c.IfLinked id fun _ => false
  | .createAlias _ _ => c.aliases.size + 2 < 2 ^ 32
  | _ => True

instance (c : Cells) (id : HashPrefix) (keep : Account → Bool) : Decidable (c.IfLinked id keep) :=
  inferInstanceAs (Decidable (_ = true))

instance (t : Touch) (c : Cells) : Decidable (t.KeepsLinks c) :=
  match t with
  | .debit id total receipt =>
    inferInstanceAs (Decidable (c.IfLinked id fun acc => (debited total receipt acc).isSome))
  | .debitRaw id total => inferInstanceAs (Decidable (c.IfLinked id fun acc => (debited total none acc).isSome))
  | .fine id errFee => inferInstanceAs (Decidable (c.IfLinked id fun acc => (fined errFee acc).isSome))
  | .create _ key _ _ => inferInstanceAs (Decidable (c.IfLinked (getHashPrefix key) fun _ => false))
  | .expire id _ => inferInstanceAs (Decidable (c.IfLinked id fun _ => false))
  | .createAlias _ _ => inferInstanceAs (Decidable (c.aliases.size + 2 < 2 ^ 32))
  | .settle .. | .credit .. | .vmDebit .. | .vmCredit .. | .vmCreate .. | .age .. | .rent .. | .reset .. |
    .createAsset .. | .writeAsset .. | .dropAsset .. | .generator .. | .patchAlias .. | .dropAlias .. =>
    .isTrue trivial

theorem aliasId_debited {total : UInt64} {receipt : Option Receipt} {acc acc' : Account}
    (h : debited total receipt acc = some acc') : acc'.aliasId = acc.aliasId := by
  unfold debited at h
  dsimp only at h
  split at h
  · cases h
  · rw [← Option.some.inj h]
    cases receipt <;> rfl

theorem aliasId_fined {errFee : Int} {acc acc' : Account} (h : fined errFee acc = some acc') :
    acc'.aliasId = acc.aliasId := by
  unfold fined at h
  dsimp only at h
  split at h
  · rw [Option.some.inj h]
  · split at h
    · cases h
    · rw [← Option.some.inj h]
      rfl

theorem aliasId_settled (amount : UInt64) (acc : Account) : (settled amount acc).aliasId = acc.aliasId := by
  unfold settled
  rw [Account.aliasId_setNonce, Account.aliasId_setBalance]

end Touch

namespace Cells

variable {c : Cells} {id : HashPrefix}

theorem IfLinked.spec {keep : Account → Bool} {acc : Account} (h : c.IfLinked id keep)
    (hacc : c.accounts.lookup id = some acc) : acc.aliasId = 0 ∨ keep acc = true := by
  unfold IfLinked at h
  rw [hacc] at h
  simpa using h

/-- A write that keeps the link of an account, or drops an account that has none. -/
theorem Coherent.mapAccount (h : c.Coherent) {f : Account → Option Account}
    (hf : ∀ acc, c.accounts.lookup id = some acc → acc.aliasId = 0 ∨ (f acc).isSome = true)
    (hlink : ∀ acc acc', f acc = some acc' → acc'.aliasId = acc.aliasId) : (c.mapAccount id f).Coherent := by
  refine ⟨fun x acc' hacc' hne => ?_, fun n al hn hal => ?_⟩
  · rw [lookup_mapAccount] at hacc'
    split_ifs at hacc' with hx
    · obtain ⟨acc, hacc, hfacc⟩ := Option.bind_eq_some_iff.mp hacc'
      rw [hlink acc acc' hfacc] at hne ⊢
      exact h.owned x acc (hx ▸ hacc) hne
    · exact h.owned x acc' hacc' hne
  · obtain ⟨acc, hacc, hid⟩ := h.linked n al hn hal
    by_cases hx : al.owner = id
    · rw [hx] at hacc
      obtain ⟨acc', hfacc⟩ := Option.isSome_iff_exists.mp ((hf acc hacc).resolve_left (hid ▸ hn))
      refine ⟨acc', ?_, (hlink acc acc' hfacc).trans hid⟩
      rw [lookup_mapAccount, if_pos hx, hacc]
      exact hfacc
    · exact ⟨acc, (lookup_mapAccount _ _ _).trans ((if_neg hx).trans hacc), hid⟩

theorem Coherent.mapSome (h : c.Coherent) {g : Account → Account} (hg : ∀ acc, (g acc).aliasId = acc.aliasId) :
    (c.mapAccount id fun acc => some (g acc)).Coherent := by
  refine h.mapAccount (fun acc _ => .inr (Option.isSome_some)) fun acc acc' hacc' => ?_
  rw [← Option.some.inj hacc']
  exact hg acc

/-- A new account without an alias, in a free cell or in the place of another without one. -/
theorem Coherent.putAccount (h : c.Coherent) {acc : Account} (hnew : acc.aliasId = 0)
    (hold : ∀ old, c.accounts.lookup id = some old → old.aliasId = 0) : (c.putAccount id acc).Coherent := by
  refine ⟨fun x acc' hacc' hne => ?_, fun n al hn hal => ?_⟩
  · unfold Cells.putAccount at hacc'
    rw [FMap.lookup_insert_eq] at hacc'
    split_ifs at hacc' with hx
    · cases hacc'
      exact absurd hnew hne
    · exact h.owned x acc' hacc' hne
  · obtain ⟨old, hacc, hid⟩ := h.linked n al hn hal
    have hx : al.owner ≠ id := by
      rintro hx
      rw [hx] at hacc
      exact hn (hid.symm.trans (hold old hacc))
    exact ⟨old, (Finmap.lookup_insert_of_ne _ hx).trans hacc, hid⟩

/-- A new alias under a free id, for an account that has none. -/
theorem Coherent.createAlias (h : c.Coherent) {n : UInt32} {al : Alias} {acc : Account}
    (hfree : c.aliases.lookup n = none) (hacc : c.accounts.lookup al.owner = some acc)
    (hnone : ∀ old, acc.aliasId ≠ 0 → c.aliases.lookup acc.aliasId = some old → old.owner ≠ al.owner) :
    ((Touch.createAlias n al).act c).Coherent := by
  have hlookup : ∀ x, ((Touch.createAlias n al).act c).accounts.lookup x =
      if x = al.owner then some { acc with aliasId := n } else c.accounts.lookup x := by
    intro x
    refine (lookup_mapAccount _ _ _).trans ?_
    rw [hacc]
    rfl
  have haliases : ∀ m, ((Touch.createAlias n al).act c).aliases.lookup m =
      if m = n then some al else c.aliases.lookup m := fun m => FMap.lookup_insert_eq _ _ _ _
  refine ⟨fun x acc' hacc' hne => ?_, fun m al' hm hal' => ?_⟩
  · rw [hlookup] at hacc'
    split_ifs at hacc' with hx
    · cases hacc'
      exact ⟨al, (haliases n).trans (if_pos rfl), hx.symm⟩
    · obtain ⟨al', hal', howner⟩ := h.owned x acc' hacc' hne
      have hother : acc'.aliasId ≠ n := by
        intro heq
        rw [heq, hfree] at hal'
        cases hal'
      exact ⟨al', (haliases _).trans ((if_neg hother).trans hal'), howner⟩
  · rw [haliases] at hal'
    split_ifs at hal' with hmn
    · cases hal'
      exact ⟨_, (hlookup _).trans (if_pos rfl), hmn.symm⟩
    · obtain ⟨acc', hacc', hid⟩ := h.linked m al' hm hal'
      have hx : al'.owner ≠ al.owner := by
        intro hx
        rw [hx, hacc] at hacc'
        cases hacc'
        exact hnone al' (hid ▸ hm) (hid ▸ hal') hx
      exact ⟨acc', (hlookup _).trans ((if_neg hx).trans hacc'), hid⟩

/-- The owner of a live alias is the account that links to it. -/
theorem Coherent.holder (h : c.Coherent) {n : UInt32} {al : Alias} (hn : n ≠ 0) (hal : c.aliases.lookup n = some al)
    (hright : al.owner = id ∨ ∃ acc, c.accounts.lookup id = some acc ∧ acc.aliasId = n) :
    al.owner = id ∧ ∃ acc, c.accounts.lookup id = some acc ∧ acc.aliasId = n := by
  rcases hright with howner | ⟨acc, hacc, hid⟩
  · exact ⟨howner, howner ▸ h.linked n al hn hal⟩
  · obtain ⟨al', hal', howner⟩ := h.owned id acc hacc (hid ▸ hn)
    rw [hid, hal] at hal'
    cases hal'
    exact ⟨howner, acc, hacc, hid⟩

theorem Coherent.dropAlias (h : c.Coherent) {n : UInt32} {al : Alias} (hn : n ≠ 0)
    (hal : c.aliases.lookup n = some al)
    (hright : al.owner = id ∨ ∃ acc, c.accounts.lookup id = some acc ∧ acc.aliasId = n) :
    ((Touch.dropAlias id n).act c).Coherent := by
  obtain ⟨howner, acc, hacc, hid⟩ := h.holder hn hal hright
  have hlookup : ∀ x, ((Touch.dropAlias id n).act c).accounts.lookup x =
      if x = id then some { acc with aliasId := 0 } else c.accounts.lookup x := by
    intro x
    refine (lookup_mapAccount _ _ _).trans ?_
    rw [hacc, Option.bind_some]
    unfold Touch.unlinked
    rw [if_pos hid]
  have haliases : ∀ m, ((Touch.dropAlias id n).act c).aliases.lookup m =
      if m = n then none else c.aliases.lookup m := fun m => FMap.lookup_erase_eq _ _ _
  refine ⟨fun x acc' hacc' hne => ?_, fun m al' hm hal' => ?_⟩
  · rw [hlookup] at hacc'
    split_ifs at hacc' with hx
    · cases hacc'
      exact absurd rfl hne
    · obtain ⟨al', hal', howner'⟩ := h.owned x acc' hacc' hne
      have hother : acc'.aliasId ≠ n := by
        intro heq
        rw [heq, hal] at hal'
        cases hal'
        exact hx (howner'.symm.trans howner)
      exact ⟨al', (haliases _).trans ((if_neg hother).trans hal'), howner'⟩
  · rw [haliases] at hal'
    split_ifs at hal' with hmn
    obtain ⟨acc', hacc', hid'⟩ := h.linked m al' hm hal'
    have hx : al'.owner ≠ id := by
      intro hx
      rw [hx, hacc] at hacc'
      cases hacc'
      exact hmn (hid'.symm.trans hid)
    exact ⟨acc', (hlookup _).trans ((if_neg hx).trans hacc'), hid'⟩

/-- A patch of an alias keeps its owner. -/
theorem Coherent.patchAlias (h : c.Coherent) {n : UInt32} {old al : Alias} (hold : c.aliases.lookup n = some old)
    (howner : al.owner = old.owner) : Coherent { c with aliases := c.aliases.insert n al } := by
  have haliases : ∀ m, (c.aliases.insert n al).lookup m = if m = n then some al else c.aliases.lookup m :=
    fun m => FMap.lookup_insert_eq _ _ _ _
  refine ⟨fun x acc hacc hne => ?_, fun m al' hm hal' => ?_⟩
  · obtain ⟨al', hal', howner'⟩ := h.owned x acc hacc hne
    by_cases hmn : acc.aliasId = n
    · rw [hmn, hold] at hal'
      cases hal'
      exact ⟨al, (haliases _).trans (if_pos hmn), howner.trans howner'⟩
    · exact ⟨al', (haliases _).trans ((if_neg hmn).trans hal'), howner'⟩
  · change (c.aliases.insert n al).lookup m = some al' at hal'
    rw [haliases] at hal'
    split_ifs at hal' with hmn
    · cases hal'
      rw [howner]
      exact h.linked m old hm (hmn ▸ hold)
    · exact h.linked m al' hm hal'

/-- The generator cell is no alias. -/
theorem Coherent.generator (h : c.Coherent) (al : Alias) : Coherent { c with aliases := c.aliases.insert 0 al } := by
  refine ⟨fun x acc hacc hne => ?_, fun m al' hm hal' => ?_⟩
  · obtain ⟨al', hal', howner⟩ := h.owned x acc hacc hne
    exact ⟨al', (Finmap.lookup_insert_of_ne _ hne).trans hal', howner⟩
  · exact h.linked m al' hm ((Finmap.lookup_insert_of_ne _ hm).symm.trans hal')

end Cells

theorem Touch.coherent_act {reg : Regime} (t : Touch) (c : Cells) (hcan : t.Can reg c) (hkeeps : t.KeepsLinks c)
    (h : c.Coherent) : (t.act c).Coherent := by
  cases t with
  | debit id total receipt =>
    exact h.mapAccount (fun acc hacc => hkeeps.spec hacc) fun acc acc' => aliasId_debited
  | debitRaw id total => exact h.mapAccount (fun acc hacc => hkeeps.spec hacc) fun acc acc' => aliasId_debited
  | fine id errFee => exact h.mapAccount (fun acc hacc => hkeeps.spec hacc) fun acc acc' => aliasId_fined
  | create source key balance nonce =>
    exact h.putAccount rfl fun old hold => (hkeeps.spec hold).resolve_right (by decide)
  | vmCreate key amount =>
    refine h.putAccount rfl fun old hold => ?_
    have hfree : c.accounts.lookup (getHashPrefix key) = none := hcan
    rw [hfree] at hold
    cases hold
  | expire id fee =>
    refine h.mapAccount (fun acc hacc => .inl ((hkeeps.spec hacc).resolve_right (by decide))) fun acc acc' hf => ?_
    cases hf
  | createAsset counted key asset => exact ⟨h.owned, h.linked⟩
  | writeAsset writer key asset => exact ⟨h.owned, h.linked⟩
  | dropAsset key => exact ⟨h.owned, h.linked⟩
  | generator al => exact h.generator al
  | createAlias n al =>
    obtain ⟨-, hfree, ⟨acc, hacc, hnone⟩, -⟩ := hcan
    exact h.createAlias (hfree hkeeps) hacc hnone
  | patchAlias principal n al =>
    obtain ⟨-, -, old, hold, howner, -⟩ := hcan
    exact h.patchAlias hold howner
  | dropAlias holder n =>
    obtain ⟨hn, al, hal, hright⟩ := hcan
    exact h.dropAlias hn hal hright
  | settle id amount => exact h.mapSome fun acc => aliasId_settled amount acc
  | credit source id amount => exact h.mapSome fun acc => acc.aliasId_setBalance _
  | vmDebit id amount => exact h.mapSome fun acc => acc.aliasId_setBalance _
  | vmCredit id amount => exact h.mapSome fun acc => acc.aliasId_setBalance _
  | age id => exact h.mapSome fun acc => rfl
  | rent id fee => exact h.mapSome fun acc => acc.aliasId_setBalance _
  | reset id target => exact h.mapSome fun acc => acc.aliasId_setBalance _

/-- In a history that drops or replaces no linked record, the two sides of every link agree, and an account has at
most one live alias. -/
theorem coherent_of_run (exec : CesServer → VmRunRequest → VmProgram) (s : CesServer) (ops : List ServerOp)
    (hstart : s.cells.Coherent) (hkeeps : RunMeets exec Touch.KeepsLinks s ops) :
    let c := (runServer exec s ops).cells
    c.Coherent ∧ ∀ n m al al', n ≠ 0 → m ≠ 0 → c.aliases.lookup n = some al → c.aliases.lookup m = some al' →
      al.owner = al'.owner → n = m := by
  intro c
  have hcoherent : c.Coherent :=
    history_invariant exec (fun t c hcan hok h => t.coherent_act c hcan hok h) hkeeps hstart
  refine ⟨hcoherent, fun n m al al' hn hm hal hal' howner => ?_⟩
  obtain ⟨acc, hacc, rfl⟩ := hcoherent.linked n al hn hal
  obtain ⟨acc', hacc', rfl⟩ := hcoherent.linked m al' hm hal'
  rw [howner, hacc'] at hacc
  cases hacc
  rfl

/-! ### An alias that outlives its account -/

def orphanServer : CesServer := .load .stock (ByteArr.zero 32) ∅ ∅ ∅

/-- An account is minted and takes an alias. -/
def orphanOps : List ServerOp :=
  [.ledger (.brr tallyKey 1000000000), .ledger (.setAlias tallyKey 0 18 [1] 1 (-1) (-1))]

theorem coherent_empty : orphanServer.cells.Coherent := by
  refine ⟨fun id acc hacc _ => ?_, fun n al _ hal => ?_⟩
  · cases (Finmap.lookup_empty id).symm.trans hacc
  · cases (Finmap.lookup_empty n).symm.trans hal

theorem coherent_of_run_alias :
    let exec : CesServer → VmRunRequest → VmProgram := fun _ _ => .done ⟨.ok, 0, []⟩
    let c := (runServer exec orphanServer orphanOps).cells
    c.Coherent ∧ ∀ n m al al', n ≠ 0 → m ≠ 0 → c.aliases.lookup n = some al → c.aliases.lookup m = some al' →
      al.owner = al'.owner → n = m :=
  coherent_of_run _ orphanServer orphanOps coherent_empty (by decide +kernel)

/-- The last credit is spent: the account is gone and its alias is not. -/
theorem alias_outlives_account :
    let exec : CesServer → VmRunRequest → VmProgram := fun _ _ => .done ⟨.ok, 0, []⟩
    let c := (runServer exec orphanServer (orphanOps ++ [.ledger (.burn tallyKey 1000000000)])).cells
    orphanServer.cells.Coherent ∧ (c.aliases.lookup 1).map Alias.owner = some (getHashPrefix tallyKey) ∧
      c.accounts.lookup (getHashPrefix tallyKey) = none := by
  refine ⟨coherent_empty, ?_, ?_⟩ <;> decide +kernel

end Ces
