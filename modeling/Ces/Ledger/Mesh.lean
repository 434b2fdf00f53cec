import Mathlib.Logic.Function.Basic
import Ces.Lib.Trace
import Ces.Ledger.Gossip
import Ces.Ledger.Keyed
import Ces.Ledger.Steps

/-!
# A gossip on several servers

A gossip carries the id of the server it is meant for, and its message id is remembered so that a copy is not charged
again. The handler checks the signature and looks the message id up; it does not read the server id, and the memory is
a bounded cache. `gossip_charged_once`: a packet that reaches other servers only where it is a duplicate or where its
sender holds nothing, and that its own server does not forget, is charged there alone and once.
-/

namespace Ces

open Ces.Lib

/-- `CES_GOSSIP` on the wire: the gossip, what else is signed, and the signature. -/
structure GossipPacket where
  req : CesGossip
  serverId : HashPrefix
  reqNonce : UInt32
  time : UInt64
  message : Bytes
  sig : Bytes
  deriving DecidableEq

/-- The branch of `incomingMessage`: the sender may be a server without an account here, so only the signature is
checked. -/
def incomingGossip (s : CesServer) (shuffle : List GossipCand → List GossipCand) (p : GossipPacket) (addr : SockAddr) :
    CesServer :=
  if !s.verifySignature p.req.originId p.message p.sig then s else handleGossip s shuffle p.req addr

/-- The message id is in the cache. -/
def CesServer.Seen (s : CesServer) (mid : HashPrefix) : Prop := s.gossipSeen.lookup mid ≠ none

section handler

variable {s : CesServer} {shuffle : List GossipCand → List GossipCand} {req : CesGossip} {addr : SockAddr}
  {mid : HashPrefix}

theorem CesServer.gossipSeen_dispatchGossipFanout (s : CesServer) (authorId msgId dest : Hash) (msg : Bytes)
    (plan : FanoutPlan) : (s.dispatchGossipFanout authorId msgId dest msg plan).gossipSeen = s.gossipSeen := by
  refine foldl_keeps CesServer.gossipSeen (fun t leg => ?_) _ _
  cases t.settlementLoad leg.address leg.key <;> rfl

/-- A copy changes no account. -/
theorem accounts_handleGossip_of_seen (h : s.Seen req.mid) :
    (handleGossip s shuffle req addr).accounts = s.accounts := by
  obtain ⟨seen, hseen⟩ := Option.ne_none_iff_exists'.mp h
  unfold handleGossip
  rw [hseen]
  rfl

/-- Neither does a gossip whose sender holds nothing here. -/
theorem accounts_handleGossip_of_nothing (h : req.collectable s = 0) :
    (handleGossip s shuffle req addr).accounts = s.accounts := by
  have hpoor : ¬0 < req.collectable s := by
    rw [h]
    decide
  unfold handleGossip
  cases s.gossipSeen.lookup req.mid with
  | some seen => rfl
  | none =>
    dsimp only
    split_ifs
    · unfold CesGossip.sink
      dsimp only
      rw [if_neg hpoor, if_neg hpoor]
      rfl
    · unfold CesGossip.broadcast
      rw [if_pos h]
      rfl

/-- Once handled, a gossip is in the cache. -/
theorem seen_handleGossip : (handleGossip s shuffle req addr).Seen req.mid := by
  have hanswer : ∀ t rcode paid, (req.answer t addr rcode paid).Seen req.mid := by
    intro t rcode paid hnone
    cases (Finmap.lookup_insert t.gossipSeen).symm.trans hnone
  unfold handleGossip
  cases hseen : s.gossipSeen.lookup req.mid with
  | some seen =>
    intro hnone
    cases hseen.symm.trans hnone
  | none =>
    dsimp only
    split_ifs
    · exact hanswer _ _ _
    · unfold CesGossip.broadcast
      split_ifs
      · exact hanswer _ _ _
      · intro hnone
        rw [CesServer.gossipSeen_dispatchGossipFanout] at hnone
        exact hanswer _ .ok _ hnone

/-- Handling another gossip forgets nothing. -/
theorem Seen.handleGossip (h : s.Seen mid) : (handleGossip s shuffle req addr).Seen mid := by
  have hanswer : ∀ t rcode paid, t.gossipSeen = s.gossipSeen → (req.answer t addr rcode paid).Seen mid := by
    intro t rcode paid hsame
    change (t.gossipSeen.insert req.mid ⟨req.senderPfx, paid⟩).lookup mid ≠ none
    rw [hsame, FMap.lookup_insert_eq]
    split_ifs
    · exact Option.some_ne_none _
    · exact h
  unfold Ces.handleGossip
  cases s.gossipSeen.lookup req.mid with
  | some seen => exact h
  | none =>
    dsimp only
    split_ifs
    · refine hanswer _ _ _ ?_
      split_ifs <;> rfl
    · unfold CesGossip.broadcast
      split_ifs
      · exact hanswer _ _ _ rfl
      · unfold CesServer.Seen
        rw [CesServer.gossipSeen_dispatchGossipFanout]
        exact hanswer (s.debit _ _) .ok _ rfl

end handler

/-! ### The mesh -/

variable {ι : Type} [DecidableEq ι]

/-- What happens on a mesh of servers: a packet arrives at one of them, or one changes in any other way. Its cache may
then forget. -/
inductive MeshEvent (ι : Type) where
  | deliver (i : ι) (shuffle : List GossipCand → List GossipCand) (p : GossipPacket) (addr : SockAddr)
  | other (i : ι) (change : CesServer → CesServer)

namespace MeshEvent

def step (net : ι → CesServer) : MeshEvent ι → ι → CesServer
  | .deliver i shuffle p addr => Function.update net i (incomingGossip (net i) shuffle p addr)
  | .other i change => Function.update net i (change (net i))

/-- The event delivers `p` to `i`, and the account of its sender there has less for it. -/
def Charges (p : GossipPacket) (i : ι) (net : ι → CesServer) (e : MeshEvent ι) : Prop :=
  match e with
  | .deliver j _ q _ =>
    j = i ∧ q = p ∧ (e.step net i).accounts.keyed p.req.originId < (net i).accounts.keyed p.req.originId
  | .other _ _ => False

instance (p : GossipPacket) (i : ι) (net : ι → CesServer) (e : MeshEvent ι) : Decidable (e.Charges p i net) :=
  match e with
  | .deliver j shuffle q addr => inferInstanceAs (Decidable (j = i ∧ q = p ∧
      ((MeshEvent.deliver j shuffle q addr).step net i).accounts.keyed p.req.originId <
        (net i).accounts.keyed p.req.originId))
  | .other _ _ => .isFalse id

/-- The packet `p` for `recipient` reaches another server only where it is a copy or where its sender holds nothing, and
the recipient does not forget its message id. -/
def Binds (recipient : ι) (p : GossipPacket) (net : ι → CesServer) : MeshEvent ι → Prop
  | .deliver i _ q _ => q = p → i ≠ recipient → (net i).Seen p.req.mid ∨ p.req.collectable (net i) = 0
  | .other i change => i = recipient → (net i).Seen p.req.mid → (change (net i)).Seen p.req.mid

variable {net : ι → CesServer} {p q : GossipPacket} {recipient i : ι}

/-- A packet is charged neither as a copy nor where its sender holds nothing. -/
theorem not_charges_of_free (h : (net i).Seen p.req.mid ∨ p.req.collectable (net i) = 0) (e : MeshEvent ι) :
    ¬e.Charges p i net := by
  cases e with
  | other j change => exact id
  | deliver j shuffle q addr =>
    rintro ⟨rfl, rfl, hless⟩
    have hsame : (incomingGossip (net j) shuffle q addr).accounts = (net j).accounts := by
      unfold incomingGossip
      split_ifs
      · rfl
      · exact h.elim accounts_handleGossip_of_seen accounts_handleGossip_of_nothing
    change ((Function.update net j (incomingGossip (net j) shuffle q addr)) j).accounts.keyed q.req.originId <
      _ at hless
    rw [Function.update_self, hsame] at hless
    exact lt_irrefl _ hless

/-- A charge leaves the message id in the cache. -/
theorem seen_of_charges {e : MeshEvent ι} (h : e.Charges p i net) : (e.step net i).Seen p.req.mid := by
  cases e with
  | other j change => exact h.elim
  | deliver j shuffle q addr =>
    obtain ⟨rfl, rfl, hless⟩ := h
    change ((Function.update net j (incomingGossip (net j) shuffle q addr)) j).accounts.keyed q.req.originId <
      _ at hless
    change ((Function.update net j (incomingGossip (net j) shuffle q addr)) j).Seen q.req.mid
    rw [Function.update_self] at hless ⊢
    unfold incomingGossip at hless ⊢
    split_ifs at hless ⊢
    · exact absurd hless (lt_irrefl _)
    · exact seen_handleGossip

/-- An event that binds `p` does not make its recipient forget it. -/
theorem Binds.seen {e : MeshEvent ι} (hbinds : e.Binds recipient p net) (h : (net recipient).Seen p.req.mid) :
    (e.step net recipient).Seen p.req.mid := by
  cases e with
  | other j change =>
    change ((Function.update net j (change (net j))) recipient).Seen p.req.mid
    by_cases hj : recipient = j
    · subst hj
      rw [Function.update_self]
      exact hbinds rfl h
    · rw [Function.update_of_ne hj]
      exact h
  | deliver j shuffle q addr =>
    change ((Function.update net j (incomingGossip (net j) shuffle q addr)) recipient).Seen p.req.mid
    by_cases hj : recipient = j
    · subst hj
      rw [Function.update_self]
      unfold incomingGossip
      split_ifs
      · exact h
      · exact Seen.handleGossip h
    · rw [Function.update_of_ne hj]
      exact h

end MeshEvent

/-- How often `p` is charged on `i`. -/
def charges (p : GossipPacket) (i : ι) : (ι → CesServer) → List (MeshEvent ι) → Nat
  | _, [] => 0
  | net, e :: events => (if e.Charges p i net then 1 else 0) + charges p i (e.step net) events

/-- Every event of the run binds `p`. -/
def MeshBinds (recipient : ι) (p : GossipPacket) : (ι → CesServer) → List (MeshEvent ι) → Prop
  | _, [] => True
  | net, e :: events => e.Binds recipient p net ∧ MeshBinds recipient p (e.step net) events

section runs

variable {net : ι → CesServer} {p : GossipPacket} {recipient i : ι} {events : List (MeshEvent ι)}

theorem charges_elsewhere (hbinds : MeshBinds recipient p net events) (hi : i ≠ recipient) :
    charges p i net events = 0 := by
  induction events generalizing net with
  | nil => rfl
  | cons e events ih =>
    have hnot : ¬e.Charges p i net := by
      cases e with
      | other j change => exact id
      | deliver j shuffle q addr =>
        rintro ⟨rfl, rfl, hless⟩
        exact MeshEvent.not_charges_of_free (hbinds.1 rfl hi) (.deliver j shuffle q addr) ⟨rfl, rfl, hless⟩
    rw [charges, if_neg hnot, ih hbinds.2]

theorem charges_of_seen (hbinds : MeshBinds recipient p net events) (h : (net recipient).Seen p.req.mid) :
    charges p recipient net events = 0 := by
  induction events generalizing net with
  | nil => rfl
  | cons e events ih =>
    rw [charges, if_neg (e.not_charges_of_free (.inl h)), ih hbinds.2 (hbinds.1.seen h)]

theorem charges_recipient_le (hbinds : MeshBinds recipient p net events) : charges p recipient net events ≤ 1 := by
  induction events generalizing net with
  | nil => exact Nat.zero_le _
  | cons e events ih =>
    rw [charges]
    split_ifs with hcharges
    · rw [charges_of_seen hbinds.2 (e.seen_of_charges hcharges)]
    · rw [zero_add]
      exact ih hbinds.2

/-- In every run on a mesh that binds the packet, its sender is charged for it on no other server than the recipient,
and there at most once. -/
theorem gossip_charged_once (hbinds : MeshBinds recipient p net events) :
    (∀ i, i ≠ recipient → charges p i net events = 0) ∧ charges p recipient net events ≤ 1 :=
  ⟨fun _ hi => charges_elsewhere hbinds hi, charges_recipient_le hbinds⟩

end runs

/-! ### A packet on the wrong server, and on a server that forgot it -/

/-- A server with an account of the sender. -/
def meshServer (key : Hash) : CesServer :=
  { CesServer.load .stock key
      ((∅ : FMap HashPrefix Account).insert (getHashPrefix tallyKey) (.ofKey tallyKey 1000000 0)) ∅ ∅ with
    verifySignature := fun _ _ _ => true }

def mesh (i : Bool) : CesServer := meshServer (if i then ByteArr.ofList 32 [1] else ByteArr.ofList 32 [2])

/-- Meant for the first server. -/
def meshPacket : GossipPacket :=
  ⟨⟨tallyKey, tallyKey, ByteArr.ofList 32 [5], ByteArr.zero 32, 1000, []⟩, getHashPrefix (mesh true).serverKey, 0,
    0, [], []⟩

theorem gossip_charged_once_on_mesh :
    let twice : List (MeshEvent Bool) := [.deliver true id meshPacket [], .deliver true id meshPacket []]
    (∀ i, i ≠ true → charges meshPacket i mesh twice = 0) ∧ charges meshPacket true mesh twice ≤ 1 :=
  gossip_charged_once ⟨fun _ hne => absurd rfl hne, fun _ hne => absurd rfl hne, trivial⟩

/-- The packet is charged on the second server too, and again on the first when its cache has moved on. -/
theorem gossip_charged_elsewhere_and_again :
    let forget : CesServer → CesServer := fun s => { s with gossipSeen := ∅ }
    meshPacket.serverId ≠ getHashPrefix (mesh false).serverKey ∧
      charges meshPacket false mesh [.deliver true id meshPacket [], .deliver false id meshPacket []] = 1 ∧
      charges meshPacket true mesh
        [.deliver true id meshPacket [], .other true forget, .deliver true id meshPacket []] = 2 := by
  decide +kernel

end Ces
