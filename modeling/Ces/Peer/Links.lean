import Mathlib.Data.Finset.Insert
import Ces.Types

/-!
# Links between peers

A server keeps one link to each of its peers, with a control and a bulk channel. The reconcile pass dials links,
inbound channels make others, and a link ends when its last channel closes. The completion handlers of a channel
hold the link and not the stream, so they may run long after the stream was replaced.

`Sound` is what every handler keeps: the open links are those of the table, one for each peer, and `established_`
holds the peers with a channel up.
-/

namespace Ces

open Ces.Lib

/-- `dialed` says that a bind handshake was begun on this channel at some time, so that its handlers may still run. -/
structure PeerChannel where
  stream : Bool
  established : Bool
  dialing : Bool
  dialed : Bool

namespace PeerChannel

@[simp] def new : PeerChannel := ⟨false, false, false, false⟩

@[simp] def up (ch : PeerChannel) : Bool := ch.established && ch.stream

end PeerChannel

structure PeerLink where
  ckey : Hash
  outbound : Bool
  closed : Bool
  ctrl : PeerChannel
  bulk : PeerChannel

namespace PeerLink

variable (l : PeerLink)

@[simp] def anyUp : Bool := l.ctrl.up || l.bulk.up

@[simp] def channel (bulk : Bool) : PeerChannel := if bulk then l.bulk else l.ctrl

@[simp] def setChannel (bulk : Bool) (ch : PeerChannel) : PeerLink :=
  if bulk then { l with bulk := ch } else { l with ctrl := ch }

end PeerLink

structure PeerLinkTarget where
  ckey : Hash
  dialable : Bool

/-- What the RUDP layer does with a dial. -/
inductive DialResult where
  | absent
  | refused
  | registered

/-- `heap` holds every link that was made. `links` and `established` are `links_` and `established_`. -/
structure PeerHandler where
  ourKey : Hash
  heap : List PeerLink
  links : FMap Hash Nat
  established : Finset Hash

namespace PeerHandler

variable (h : PeerHandler)

def put (id : Nat) (l : PeerLink) : PeerHandler := { h with heap := h.heap.set id l }

/-- Most handlers return at once on a closed link. -/
def onOpen (id : Nat) (next : PeerLink → PeerHandler) : PeerHandler :=
  match h.heap[id]? with
  | none => h
  | some l => if l.closed then h else next l

def teardownLink (id : Nat) : PeerHandler :=
  h.onOpen id fun l =>
    { h.put id { l with closed := true, ctrl.stream := false, bulk.stream := false } with
      established := h.established.erase l.ckey
      links := if h.links.lookup l.ckey = some id then h.links.erase l.ckey else h.links }

def closeChannel (id : Nat) (bulk : Bool) : PeerHandler :=
  h.onOpen id fun l =>
    let l' := l.setChannel bulk { PeerChannel.new with dialed := (l.channel bulk).dialed }
    if l'.anyUp then h.put id l' else (h.put id l').teardownLink id

def establishChannel (id : Nat) (bulk : Bool) : PeerHandler :=
  h.onOpen id fun l =>
    { h.put id (l.setChannel bulk { l.channel bulk with established := true, dialing := false }) with
      established := if l.anyUp then h.established else insert l.ckey h.established }

def dialChannel (rudp : DialResult) (id : Nat) (bulk : Bool) : PeerHandler :=
  h.onOpen id fun l =>
    let ch := l.channel bulk
    if ch.up || ch.dialing then h
    else
      match rudp with
      | .absent => h
      | .refused => (h.put id (l.setChannel bulk { ch with stream := true, dialing := true })).closeChannel id bulk
      | .registered => h.put id (l.setChannel bulk { ch with stream := true, dialing := true, dialed := true })

def newLink (ckey : Hash) (outbound : Bool) : PeerHandler :=
  { h with heap := h.heap ++ [⟨ckey, outbound, false, .new, .new⟩], links := h.links.insert ckey h.heap.length }

def dialPeer (rudp : DialResult) (ckey : Hash) : PeerHandler :=
  if (h.links.lookup ckey).isSome then h else (h.newLink ckey true).dialChannel rudp h.heap.length false

/-- The reply to a bind request, verified or not. -/
def readDialBindReply (rudp : DialResult) (id : Nat) (bulk ok : Bool) : PeerHandler :=
  h.onOpen id fun l =>
    if !(l.channel bulk).dialed then h
    else if !ok then h.closeChannel id bulk
    else
      let h' := h.establishChannel id bulk
      h'.onOpen id fun l =>
        if !bulk && l.outbound && !l.bulk.up && !l.bulk.dialing then h'.dialChannel rudp id true else h'

def dialTimeout (id : Nat) (bulk : Bool) : PeerHandler :=
  h.onOpen id fun l => if (l.channel bulk).up then h else h.closeChannel id bulk

def toDrop (peers : List PeerLinkTarget) (current : List Hash) : List Hash :=
  current.filter fun ck => !peers.any (·.ckey == ck)

def toDial (peers : List PeerLinkTarget) (ourKey : Hash) (current : List Hash) : List Hash :=
  (peers.filter fun p => p.dialable && !current.contains p.ckey && decide (ourKey.bytes < p.ckey.bytes)).map (·.ckey)

def regenerateControl (rudp : DialResult) (id : Nat) : PeerHandler :=
  h.onOpen id fun l => if !l.ctrl.up && !l.ctrl.dialing then h.dialChannel rudp id false else h

def regenerateBulk (rudp : DialResult) (id : Nat) : PeerHandler :=
  h.onOpen id fun l => if l.anyUp && !l.bulk.up && !l.bulk.dialing then h.dialChannel rudp id true else h

def regenerate (rudp : Nat → Bool → DialResult) (id : Nat) : PeerHandler :=
  h.onOpen id fun l =>
    if l.outbound then (h.regenerateControl (rudp id false) id).regenerateBulk (rudp id true) id else h

/-- `current` and `kept` are the keys and the links of `links_` in its order, before the pass and after the dials. -/
def reconcileOnce (rudp : Nat → Bool → DialResult) (peers : List PeerLinkTarget) (current : List Hash)
    (kept : List Nat) : PeerHandler :=
  let h := (toDrop peers current).foldl (fun h ck => (h.links.lookup ck).elim h h.teardownLink) h
  let h := (toDial peers h.ourKey current).foldl (fun h ck => h.dialPeer (rudp h.heap.length false) ck) h
  kept.foldl (fun h id => h.regenerate rudp id) h

def fillSlot (id : Nat) (bulk : Bool) : PeerHandler :=
  h.onOpen id fun l =>
    (h.put id (l.setChannel bulk { l.channel bulk with stream := true })).establishChannel id bulk

def acceptLink (ckey : Hash) : PeerHandler := (h.newLink ckey false).fillSlot h.heap.length false

/-- An inbound channel takes the first slot that is free; when both are up the link is replaced. -/
def serve (isPeer : Bool) (ckey : Hash) : PeerHandler :=
  if !isPeer then h
  else
    match h.links.lookup ckey with
    | none => h.acceptLink ckey
    | some id =>
      match h.heap[id]? with
      | none => h.acceptLink ckey
      | some l =>
        if l.closed then h.acceptLink ckey
        else if !l.ctrl.up then h.fillSlot id false
        else if !l.bulk.up then h.fillSlot id true
        else (h.teardownLink id).acceptLink ckey

def stop : PeerHandler :=
  { h with
    heap := h.heap.mapIdx fun id l =>
      if h.links.lookup l.ckey = some id then { l with closed := true, ctrl.stream := false, bulk.stream := false }
        else l
    links := ∅
    established := ∅ }

def isLinked (ckey : Hash) : Bool := decide (ckey ∈ h.established)

def hasLink (ckey : Hash) : Bool :=
  match (h.links.lookup ckey).bind (h.heap[·]?) with
  | none => false
  | some l => !l.closed && l.anyUp

def new (ourKey : Hash) : PeerHandler := ⟨ourKey, [], ∅, ∅⟩

end PeerHandler

/-- `failed` is an error of a read or a write, or a frame that is refused. -/
inductive PeerEvent where
  | serve (isPeer : Bool) (ckey : Hash)
  | bindReply (rudp : DialResult) (id : Nat) (bulk ok : Bool)
  | failed (id : Nat) (bulk : Bool)
  | timeout (id : Nat) (bulk : Bool)
  | reconcile (rudp : Nat → Bool → DialResult) (peers : List PeerLinkTarget) (current : List Hash) (kept : List Nat)
  | stop

namespace PeerHandler

def step (h : PeerHandler) : PeerEvent → PeerHandler
  | .serve isPeer ckey => h.serve isPeer ckey
  | .bindReply rudp id bulk ok => h.readDialBindReply rudp id bulk ok
  | .failed id bulk => h.closeChannel id bulk
  | .timeout id bulk => h.dialTimeout id bulk
  | .reconcile rudp peers current kept => h.reconcileOnce rudp peers current kept
  | .stop => h.stop

def run (h : PeerHandler) (events : List PeerEvent) : PeerHandler := events.foldl step h

/-! ### The invariant -/

def Open (h : PeerHandler) (id : Nat) (l : PeerLink) : Prop := h.heap[id]? = some l ∧ l.closed = false

/-- A link without a channel up has never had one: its control channel may be dialing. -/
def Ready (l : PeerLink) : Prop :=
  l.anyUp = true ∨ (l.bulk = .new ∧ l.ctrl.established = false ∧ (l.ctrl.dialed = true → l.ctrl.stream = true))

structure Sound (ourKey : Hash) (h : PeerHandler) : Prop where
  key : h.ourKey = ourKey
  table : ∀ k id, h.links.lookup k = some id ↔ ∃ l, h.Open id l ∧ l.ckey = k
  linked : ∀ k, k ∈ h.established ↔ ∃ id l, h.Open id l ∧ l.ckey = k ∧ l.anyUp = true
  dialer : ∀ id l, h.Open id l → l.outbound = true → ourKey.bytes < l.ckey.bytes
  ready : ∀ id l, h.Open id l → Ready l

variable {ourKey : Hash} {h : PeerHandler} {id : Nat} {l l' : PeerLink}

theorem anyUp_eq (l : PeerLink) (bulk : Bool) : l.anyUp = ((l.channel bulk).up || (l.channel !bulk).up) := by
  cases bulk with
  | false => rfl
  | true => exact Bool.or_comm _ _

theorem anyUp_setChannel (l : PeerLink) (bulk : Bool) (ch : PeerChannel) :
    (l.setChannel bulk ch).anyUp = (ch.up || (l.channel !bulk).up) := by
  cases bulk with
  | false => rfl
  | true => exact Bool.or_comm _ _

theorem Open.lt (hl : h.Open id l) : id < h.heap.length := (List.getElem?_eq_some_iff.mp hl.1).1

theorem open_put (hl : h.Open id l) {id' : Nat} {m : PeerLink} :
    (h.put id l').Open id' m ↔ (id' = id ∧ m = l' ∧ l'.closed = false) ∨ (id' ≠ id ∧ h.Open id' m) := by
  unfold Open put
  by_cases hid : id' = id
  · subst hid
    rw [List.getElem?_set_self hl.lt]
    constructor
    · rintro ⟨heq, hopen⟩
      obtain rfl := Option.some.inj heq
      exact .inl ⟨rfl, rfl, hopen⟩
    · rintro (⟨-, rfl, hopen⟩ | ⟨hne, -⟩)
      · exact ⟨rfl, hopen⟩
      · exact absurd rfl hne
  · rw [List.getElem?_set_ne (Ne.symm hid)]
    exact ⟨fun hm => .inr ⟨hid, hm⟩, fun hm => hm.elim (fun hself => absurd hself.1 hid) And.right⟩

/-- A channel gets a stream: no channel is up that was not. Only the control channel is filled when none is up. -/
theorem ready_stream (hready : Ready l) {bulk : Bool} (hslot : bulk = true → l.anyUp = true) (ch : PeerChannel)
    (hestablished : ch.established = (l.channel bulk).established) (hstream : ch.stream = true) :
    (l.setChannel bulk ch).anyUp = l.anyUp ∧ Ready (l.setChannel bulk ch) := by
  rcases hready with hup | ⟨hbulk, hctrl, -⟩
  · have hstill : (l.setChannel bulk ch).anyUp = true := by
      rw [anyUp_eq l bulk, Bool.or_eq_true] at hup
      rw [anyUp_setChannel, Bool.or_eq_true]
      refine hup.imp_left fun hown => ?_
      rw [PeerChannel.up, hestablished, (Bool.and_eq_true_iff.mp hown).1, hstream]
      rfl
    exact ⟨hstill.trans hup.symm, .inl hstill⟩
  · cases bulk with
    | true =>
      have hup := hslot rfl
      rw [PeerLink.anyUp, PeerChannel.up, hctrl, hbulk] at hup
      cases hup
    | false =>
      have hnot : ch.established = false := hestablished.trans hctrl
      refine ⟨?_, .inr ⟨hbulk, hnot, fun _ => hstream⟩⟩
      rw [anyUp_setChannel, anyUp_eq l false, PeerChannel.up, hnot]
      change (false || _) = ((l.ctrl.established && l.ctrl.stream) || _)
      rw [hctrl, Bool.false_and]

namespace Sound

theorem onOpen (hs : h.Sound ourKey) {next : PeerLink → PeerHandler}
    (hnext : ∀ l, h.Open id l → (next l).Sound ourKey) :
    (h.onOpen id next).Sound ourKey := by
  unfold PeerHandler.onOpen
  split
  · exact hs
  · rename_i l hl
    split_ifs with hclosed
    · exact hs
    · exact hnext l ⟨hl, by simpa using hclosed⟩

theorem unique (hs : h.Sound ourKey) {id' : Nat} (hl : h.Open id l) (hl' : h.Open id' l') (hkey : l.ckey = l'.ckey) :
    id = id' :=
  Option.some.inj (((hs.table l.ckey id).mpr ⟨l, hl, rfl⟩).symm.trans ((hs.table l.ckey id').mpr ⟨l', hl', hkey.symm⟩))

theorem eq_of_open (hl : h.Open id l) (hl' : h.Open id l') : l = l' := Option.some.inj (hl.1.symm.trans hl'.1)

/-- A channel of an open link changes. The peer is linked when a channel is up. -/
theorem setChannel (hs : h.Sound ourKey) (hl : h.Open id l) {bulk : Bool} {ch : PeerChannel} {est : Finset Hash}
    (hready : Ready (l.setChannel bulk ch)) (hup : l.anyUp = true → (l.setChannel bulk ch).anyUp = true)
    (hest : ∀ k, k ∈ est ↔ k ∈ h.established ∨ (k = l.ckey ∧ (l.setChannel bulk ch).anyUp = true)) :
    { h.put id (l.setChannel bulk ch) with established := est }.Sound ourKey := by
  obtain ⟨hkey, hside, hopen⟩ : (l.setChannel bulk ch).ckey = l.ckey ∧ (l.setChannel bulk ch).outbound = l.outbound ∧
      (l.setChannel bulk ch).closed = false := by
    cases bulk <;> exact ⟨rfl, rfl, hl.2⟩
  generalize l.setChannel bulk ch = l' at *
  have hput : ∀ {id' m}, { h.put id l' with established := est }.Open id' m ↔
      (id' = id ∧ m = l' ∧ l'.closed = false) ∨ (id' ≠ id ∧ h.Open id' m) := open_put hl
  have hself : { h.put id l' with established := est }.Open id l' := hput.mpr (.inl ⟨rfl, rfl, hopen⟩)
  refine ⟨hs.key, fun k id' => (hs.table k id').trans ?_,
    fun k => ((hest k).trans (or_congr_left (hs.linked k))).trans ?_,
    fun id' m hm hdialed => ?_, fun id' m hm => ?_⟩
  · constructor
    · rintro ⟨m, hm, rfl⟩
      by_cases hid : id' = id
      · subst hid
        rw [eq_of_open hm hl]
        exact ⟨l', hself, hkey⟩
      · exact ⟨m, hput.mpr (.inr ⟨hid, hm⟩), rfl⟩
    · rintro ⟨m, hm, rfl⟩
      rcases hput.mp hm with ⟨rfl, rfl, -⟩ | ⟨-, hm⟩
      · exact ⟨l, hl, hkey.symm⟩
      · exact ⟨m, hm, rfl⟩
  · constructor
    · rintro (⟨id', m, hm, rfl, hmup⟩ | ⟨rfl, hlup⟩)
      · by_cases hid : id' = id
        · subst hid
          rw [eq_of_open hm hl] at hmup ⊢
          exact ⟨id', l', hself, hkey, hup hmup⟩
        · exact ⟨id', m, hput.mpr (.inr ⟨hid, hm⟩), rfl, hmup⟩
      · exact ⟨id, l', hself, hkey, hlup⟩
    · rintro ⟨id', m, hm, rfl, hmup⟩
      rcases hput.mp hm with ⟨rfl, rfl, -⟩ | ⟨-, hm⟩
      · exact .inr ⟨hkey, hmup⟩
      · exact .inl ⟨id', m, hm, rfl, hmup⟩
  · rcases hput.mp hm with ⟨rfl, rfl, -⟩ | ⟨-, hm⟩
    · rw [hkey]
      exact hs.dialer id' l hl (hside ▸ hdialed)
    · exact hs.dialer id' m hm hdialed
  · rcases hput.mp hm with ⟨rfl, rfl, -⟩ | ⟨-, hm⟩
    · exact hready
    · exact hs.ready id' m hm

theorem teardown (hs : h.Sound ourKey) (hl : h.Open id l) (hclosed : l'.closed = true) :
    { h.put id l' with
      established := h.established.erase l.ckey
      links := if h.links.lookup l.ckey = some id then h.links.erase l.ckey else h.links }.Sound ourKey := by
  rw [if_pos ((hs.table _ _).mpr ⟨l, hl, rfl⟩)]
  have hput : ∀ {id' m},
    { h.put id l' with established := h.established.erase l.ckey, links := h.links.erase l.ckey }.Open
      id' m ↔ h.Open id' m ∧ m.ckey ≠ l.ckey := by
    intro id' m
    refine (open_put hl).trans ⟨?_, ?_⟩
    · rintro (⟨-, -, hopen⟩ | ⟨hid, hm⟩)
      · rw [hclosed] at hopen
        cases hopen
      · exact ⟨hm, fun hkey => hid (hs.unique hm hl hkey)⟩
    · rintro ⟨hm, hkey⟩
      refine .inr ⟨?_, hm⟩
      rintro rfl
      exact hkey (congrArg PeerLink.ckey (eq_of_open hm hl))
  refine ⟨hs.key, fun k id' => ?_, fun k => ?_, fun id' m hm => hs.dialer id' m (hput.mp hm).1,
    fun id' m hm => hs.ready id' m (hput.mp hm).1⟩
  · change (h.links.erase l.ckey).lookup k = some id' ↔ _
    rw [FMap.lookup_erase_eq]
    split_ifs with hk
    · subst hk
      constructor
      · intro hnone
        cases hnone
      · rintro ⟨m, hm, hkey⟩
        exact absurd hkey (hput.mp hm).2
    · rw [hs.table]
      constructor
      · rintro ⟨m, hm, rfl⟩
        exact ⟨m, hput.mpr ⟨hm, hk⟩, rfl⟩
      · rintro ⟨m, hm, rfl⟩
        exact ⟨m, (hput.mp hm).1, rfl⟩
  · refine Finset.mem_erase.trans ?_
    rw [hs.linked]
    constructor
    · rintro ⟨hk, id', m, hm, rfl, hup⟩
      exact ⟨id', m, hput.mpr ⟨hm, hk⟩, rfl, hup⟩
    · rintro ⟨id', m, hm, rfl, hup⟩
      obtain ⟨hm, hk⟩ := hput.mp hm
      exact ⟨hk, id', m, hm, rfl, hup⟩

/-- A new link to a peer that has none. -/
theorem newLink (hs : h.Sound ourKey) {ckey : Hash} {outbound : Bool} (hnone : h.links.lookup ckey = none)
    (hside : outbound = true → ourKey.bytes < ckey.bytes) : (h.newLink ckey outbound).Sound ourKey := by
  have hput : ∀ {id' m}, (h.newLink ckey outbound).Open id' m ↔
      (id' = h.heap.length ∧ m = ⟨ckey, outbound, false, .new, .new⟩) ∨ h.Open id' m := by
    intro id' m
    constructor
    · rintro ⟨hm, hopen⟩
      rw [PeerHandler.newLink] at hm
      by_cases hlt : id' < h.heap.length
      · rw [List.getElem?_append_left hlt] at hm
        exact .inr ⟨hm, hopen⟩
      · rw [List.getElem?_append_right (Nat.le_of_not_lt hlt), List.getElem?_singleton] at hm
        split_ifs at hm with hlast
        exact .inl ⟨by omega, (Option.some.inj hm).symm⟩
    · rintro (⟨rfl, rfl⟩ | hm)
      · exact ⟨List.getElem?_concat_length, rfl⟩
      · exact ⟨(List.getElem?_append_left hm.lt).trans hm.1, hm.2⟩
  refine ⟨hs.key, fun k id' => ?_, fun k => (hs.linked k).trans ⟨?_, ?_⟩, fun id' m hm hdialed => ?_,
    fun id' m hm => ?_⟩
  · change (h.links.insert ckey h.heap.length).lookup k = some id' ↔ _
    rw [FMap.lookup_insert_eq]
    split_ifs with hk
    · subst hk
      constructor
      · intro heq
        obtain rfl := Option.some.inj heq
        exact ⟨_, hput.mpr (.inl ⟨rfl, rfl⟩), rfl⟩
      · rintro ⟨m, hm, hkey⟩
        rcases hput.mp hm with ⟨rfl, -⟩ | hm
        · rfl
        · rw [(hs.table k id').mpr ⟨m, hm, hkey⟩] at hnone
          cases hnone
    · rw [hs.table]
      constructor
      · rintro ⟨m, hm, hkey⟩
        exact ⟨m, hput.mpr (.inr hm), hkey⟩
      · rintro ⟨m, hm, hkey⟩
        rcases hput.mp hm with ⟨-, rfl⟩ | hm
        · exact absurd hkey.symm hk
        · exact ⟨m, hm, hkey⟩
  · rintro ⟨id', m, hm, hrest⟩
    exact ⟨id', m, hput.mpr (.inr hm), hrest⟩
  · rintro ⟨id', m, hm, hkey, hup⟩
    rcases hput.mp hm with ⟨-, rfl⟩ | hm
    · cases hup
    · exact ⟨id', m, hm, hkey, hup⟩
  · rcases hput.mp hm with ⟨-, rfl⟩ | hm
    · exact hside hdialed
    · exact hs.dialer id' m hm hdialed
  · rcases hput.mp hm with ⟨-, rfl⟩ | hm
    · exact .inr ⟨rfl, rfl, fun hdialed => nomatch hdialed⟩
    · exact hs.ready id' m hm

theorem mem_established (hs : h.Sound ourKey) (hl : h.Open id l) (hup : l.anyUp = true) : l.ckey ∈ h.established :=
  (hs.linked _).mpr ⟨id, l, hl, rfl, hup⟩

theorem setChannel_same (hs : h.Sound ourKey) (hl : h.Open id l) {bulk : Bool} {ch : PeerChannel}
    (hready : Ready (l.setChannel bulk ch)) (hup : (l.setChannel bulk ch).anyUp = l.anyUp) :
    (h.put id (l.setChannel bulk ch)).Sound ourKey := by
  refine hs.setChannel hl hready (fun h => hup.trans h) fun k => ⟨.inl, ?_⟩
  rintro (hk | ⟨rfl, hlup⟩)
  · exact hk
  · exact hs.mem_established hl (hup ▸ hlup)

theorem anyUp_established {bulk : Bool} (hslot : l.anyUp = true ∨ (bulk = false ∧ l.ctrl.stream = true)) :
    (l.setChannel bulk { l.channel bulk with established := true, dialing := false }).anyUp = true := by
  rw [anyUp_setChannel, Bool.or_eq_true]
  rcases hslot with hup | ⟨rfl, hstream⟩
  · rw [anyUp_eq l bulk, Bool.or_eq_true] at hup
    exact hup.imp_left fun hown => (Bool.and_eq_true_iff.mp hown).2
  · exact .inl hstream

theorem establishChannel (hs : h.Sound ourKey) {bulk : Bool}
    (hslot : ∀ l, h.Open id l → l.anyUp = true ∨ (bulk = false ∧ l.ctrl.stream = true)) :
    (h.establishChannel id bulk).Sound ourKey := by
  refine hs.onOpen fun l hl => ?_
  have hup := anyUp_established (hslot l hl)
  refine hs.setChannel hl (.inl hup) (fun _ => hup) fun k => ?_
  split_ifs with hbefore
  · refine ⟨.inl, ?_⟩
    rintro (hk | ⟨rfl, -⟩)
    · exact hk
    · exact hs.mem_established hl hbefore
  · rw [Finset.mem_insert, or_comm, and_iff_left hup]

theorem closeChannel (hs : h.Sound ourKey) (id : Nat) (bulk : Bool) : (h.closeChannel id bulk).Sound ourKey := by
  refine hs.onOpen fun l hl => ?_
  dsimp only
  split_ifs with hup
  · refine hs.setChannel_same hl (.inl hup) (hup.trans ?_)
    rw [anyUp_setChannel] at hup
    have hother : (l.channel !bulk).up = true := hup
    rw [anyUp_eq l bulk, hother, Bool.or_true]
  · have hend := @teardown ourKey h id l
      { l.setChannel bulk { PeerChannel.new with dialed := (l.channel bulk).dialed } with
      closed := true, ctrl.stream := false, bulk.stream := false } hs hl rfl
    cases bulk <;> simpa [PeerHandler.teardownLink, PeerHandler.onOpen, PeerHandler.put, hl.2, hl.lt] using hend

theorem dialChannel (hs : h.Sound ourKey) {bulk : Bool} (rudp : DialResult)
    (hslot : ∀ l, h.Open id l → bulk = true → l.anyUp = true) : (h.dialChannel rudp id bulk).Sound ourKey := by
  refine hs.onOpen fun l hl => ?_
  have hput : ∀ dialed, (h.put id (l.setChannel bulk
      { l.channel bulk with stream := true, dialing := true, dialed := dialed })).Sound ourKey := by
    intro dialed
    obtain ⟨hup, hready⟩ := ready_stream (hs.ready id l hl) (hslot l hl)
      { l.channel bulk with stream := true, dialing := true, dialed := dialed } rfl rfl
    exact hs.setChannel_same hl hready hup
  dsimp only
  split_ifs
  · exact hs
  · cases rudp with
    | absent => exact hs
    | refused => exact (hput _).closeChannel id bulk
    | registered => exact hput true

theorem dialPeer (hs : h.Sound ourKey) (rudp : DialResult) {ckey : Hash} (hside : ourKey.bytes < ckey.bytes) :
    (h.dialPeer rudp ckey).Sound ourKey := by
  unfold PeerHandler.dialPeer
  split_ifs with hlinked
  · exact hs
  · exact (hs.newLink (by simpa using hlinked) fun _ => hside).dialChannel rudp (by simp)

theorem fillSlot (hs : h.Sound ourKey) {bulk : Bool} (hslot : ∀ l, h.Open id l → bulk = true → l.anyUp = true) :
    (h.fillSlot id bulk).Sound ourKey := by
  refine hs.onOpen fun l hl => ?_
  obtain ⟨hup, hready⟩ := ready_stream (hs.ready id l hl) (hslot l hl) { l.channel bulk with stream := true } rfl rfl
  refine establishChannel (hs.setChannel_same hl hready hup) fun l' hl' => ?_
  rcases (open_put hl).mp hl' with ⟨-, rfl, -⟩ | ⟨hne, -⟩
  · cases bulk with
    | false => exact .inr ⟨rfl, rfl⟩
    | true => exact .inl (hup.trans (hslot l hl rfl))
  · exact absurd rfl hne

theorem acceptLink (hs : h.Sound ourKey) {ckey : Hash} (hnone : h.links.lookup ckey = none) :
    (h.acceptLink ckey).Sound ourKey :=
  (hs.newLink hnone (by simp)).fillSlot (by simp)

theorem teardownLink (hs : h.Sound ourKey) (id : Nat) : (h.teardownLink id).Sound ourKey :=
  hs.onOpen fun _ hl => hs.teardown hl rfl

theorem serve (hs : h.Sound ourKey) (isPeer : Bool) (ckey : Hash) : (h.serve isPeer ckey).Sound ourKey := by
  unfold PeerHandler.serve
  split_ifs
  · exact hs
  cases hlookup : h.links.lookup ckey with
  | none => exact hs.acceptLink hlookup
  | some id =>
    obtain ⟨l, hl, rfl⟩ := (hs.table ckey id).mp hlookup
    simp only [hl.1, hl.2, Bool.false_eq_true, if_false]
    split_ifs with hctrl hbulk
    · exact hs.fillSlot (by simp)
    · refine hs.fillSlot fun l' hl' _ => ?_
      have hup : l.ctrl.up = true := by simpa using hctrl
      rw [eq_of_open hl' hl]
      exact Bool.or_eq_true_iff.mpr (.inl hup)
    · refine (hs.teardownLink id).acceptLink ?_
      simp [PeerHandler.teardownLink, PeerHandler.onOpen, hl.1, hl.2, hlookup, PeerHandler.put]

theorem readDialBindReply (hs : h.Sound ourKey) (rudp : DialResult) (id : Nat) (bulk ok : Bool) :
    (h.readDialBindReply rudp id bulk ok).Sound ourKey := by
  refine hs.onOpen fun l hl => ?_
  split_ifs with hdialed hok
  · exact hs
  · exact hs.closeChannel id bulk
  have hslot : ∀ l', h.Open id l' → l'.anyUp = true ∨ (bulk = false ∧ l'.ctrl.stream = true) := by
    intro l' hl'
    have hbegun : (l.channel bulk).dialed = true := by simpa using hdialed
    rw [eq_of_open hl' hl]
    refine (hs.ready id l hl).imp_right fun ⟨hbulk, _, hstream⟩ => ?_
    cases bulk with
    | false => exact ⟨rfl, hstream hbegun⟩
    | true =>
      change l.bulk.dialed = true at hbegun
      rw [hbulk] at hbegun
      cases hbegun
  have hs' := hs.establishChannel hslot
  refine hs'.onOpen fun l' hl' => ?_
  split_ifs
  · refine hs'.dialChannel rudp fun m hm _ => ?_
    simp only [PeerHandler.establishChannel, PeerHandler.onOpen, hl.1, hl.2, Bool.false_eq_true, if_false] at hm
    rcases (open_put hl).mp hm with ⟨-, rfl, -⟩ | ⟨hne, -⟩
    · exact anyUp_established (hslot l hl)
    · exact absurd rfl hne
  · exact hs'

theorem regenerateBulk (hs : h.Sound ourKey) (rudp : DialResult) (id : Nat) :
    (h.regenerateBulk rudp id).Sound ourKey := by
  refine hs.onOpen fun l hl => ?_
  split_ifs with hdial
  · refine hs.dialChannel rudp fun m hm _ => ?_
    rw [eq_of_open hm hl]
    exact (Bool.and_eq_true_iff.mp (Bool.and_eq_true_iff.mp hdial).1).1
  · exact hs

theorem regenerate (hs : h.Sound ourKey) (rudp : Nat → Bool → DialResult) (id : Nat) :
    (h.regenerate rudp id).Sound ourKey := by
  refine hs.onOpen fun l _ => ?_
  split_ifs
  · refine regenerateBulk (hs.onOpen fun l _ => ?_) _ id
    split_ifs
    · exact hs.dialChannel _ (by simp)
    · exact hs
  · exact hs

theorem reconcileOnce (hs : h.Sound ourKey) (rudp : Nat → Bool → DialResult) (peers : List PeerLinkTarget)
    (current : List Hash) (kept : List Nat) : (h.reconcileOnce rudp peers current kept).Sound ourKey := by
  have hdrop : ((toDrop peers current).foldl (fun h ck => (h.links.lookup ck).elim h h.teardownLink) h).Sound
    ourKey := by
    refine List.foldlRecOn (motive := Sound ourKey) _ _ hs fun h hs ck _ => ?_
    cases h.links.lookup ck with
    | none => exact hs
    | some id => exact hs.teardownLink id
  refine List.foldlRecOn (motive := Sound ourKey) _ _ ?_ fun h hs id _ => hs.regenerate rudp id
  refine List.foldlRecOn (motive := Sound ourKey) _ _ hdrop fun h hs ck hck => hs.dialPeer _ ?_
  obtain ⟨p, hp, rfl⟩ := List.mem_map.mp hck
  have hside := of_decide_eq_true (Bool.and_eq_true_iff.mp (List.mem_filter.mp hp).2).2
  rwa [hdrop.key] at hside

theorem stop (hs : h.Sound ourKey) : h.stop.Sound ourKey := by
  have hnone : ∀ id l, ¬ h.stop.Open id l := by
    rintro id l ⟨hl, hopen⟩
    rw [PeerHandler.stop, List.getElem?_mapIdx] at hl
    obtain ⟨m, hm, rfl⟩ := Option.map_eq_some_iff.mp hl
    split_ifs at hopen with hlisted
    exact hlisted ((hs.table _ _).mpr ⟨m, ⟨hm, hopen⟩, rfl⟩)
  refine ⟨hs.key, fun k id => ?_, fun k => ?_, fun id l hl => absurd hl (hnone id l),
    fun id l hl => absurd hl (hnone id l)⟩
  · simp only [hnone, false_and, exists_false, iff_false]
    exact fun h => by cases h
  · simp only [hnone, false_and, exists_false, iff_false]
    exact Finset.notMem_empty k

theorem step (hs : h.Sound ourKey) (e : PeerEvent) : (h.step e).Sound ourKey := by
  cases e with
  | serve isPeer ckey => exact hs.serve isPeer ckey
  | bindReply rudp id bulk ok => exact hs.readDialBindReply rudp id bulk ok
  | failed id bulk => exact hs.closeChannel id bulk
  | timeout id bulk =>
    refine hs.onOpen fun l _ => ?_
    split_ifs
    · exact hs
    · exact hs.closeChannel id bulk
  | reconcile rudp peers current kept => exact hs.reconcileOnce rudp peers current kept
  | stop => exact hs.stop

theorem run (events : List PeerEvent) : ((PeerHandler.new ourKey).run events).Sound ourKey := by
  have hnew : (PeerHandler.new ourKey).Sound ourKey := by
    have hnone : ∀ id l, ¬ (PeerHandler.new ourKey).Open id l := fun id l hl => nomatch hl.lt
    refine ⟨rfl, fun k id => ?_, fun k => ?_, fun id l hl => absurd hl (hnone id l),
      fun id l hl => absurd hl (hnone id l)⟩
    · simp only [hnone, false_and, exists_false, iff_false]
      exact fun hlookup => nomatch hlookup
    · simp only [hnone, false_and, exists_false, iff_false]
      exact Finset.notMem_empty k
  exact List.foldlRecOn (motive := Sound ourKey) _ _ hnew fun h hs e _ => hs.step e

end Sound

end PeerHandler

open PeerHandler

/-- However the handlers of the links, the inbound channels and the reconcile passes interleave, the dashboard and the
message path agree on who is linked, and no peer has two open links. -/
theorem peer_links_coherent (ourKey : Hash) (events : List PeerEvent) :
    let h := (new ourKey).run events
    (∀ k, h.isLinked k = h.hasLink k) ∧ ∀ id id' l l', h.Open id l → h.Open id' l' → l.ckey = l'.ckey → id = id' := by
  intro h
  have hs : h.Sound ourKey := Sound.run events
  refine ⟨fun k => ?_, fun _ _ _ _ => hs.unique⟩
  rw [Bool.eq_iff_iff, isLinked, decide_eq_true_iff, hs.linked, hasLink]
  cases hlookup : h.links.lookup k with
  | none =>
    have hno : ∀ id l, h.Open id l → l.ckey ≠ k := by
      rintro id l hl rfl
      simp [(hs.table _ id).mpr ⟨l, hl, rfl⟩] at hlookup
    simp only [Option.bind_none, Bool.false_eq_true, iff_false]
    exact fun ⟨id, l, hl, hk, _⟩ => hno id l hl hk
  | some id =>
    obtain ⟨l, hl, rfl⟩ := (hs.table k id).mp hlookup
    simp only [Option.bind_some, hl.1, hl.2, Bool.not_false, Bool.true_and]
    refine ⟨fun ⟨id', m, hm, hkey, hup⟩ => ?_, fun hup => ⟨id, l, hl, rfl, hup⟩⟩
    obtain rfl := hs.unique hm hl hkey
    rwa [← Sound.eq_of_open hm hl]

/-- Of two servers at most one has dialed the other, whatever happens on either side. -/
theorem peers_never_dial_each_other (a b : Hash) (events events' : List PeerEvent) :
    ¬ ((∃ id l, ((new a).run events).Open id l ∧ l.ckey = b ∧ l.outbound = true) ∧
      ∃ id l, ((new b).run events').Open id l ∧ l.ckey = a ∧ l.outbound = true) := by
  rintro ⟨⟨id, l, hl, rfl, hdialed⟩, id', l', hl', rfl, hdialed'⟩
  exact List.lt_asymm ((Sound.run events).dialer id l hl hdialed) ((Sound.run events').dialer id' l' hl' hdialed')

end Ces
